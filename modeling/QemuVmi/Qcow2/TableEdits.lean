import QemuVmi.Qcow2.Allocation

/-!
# Edits of L1 and L2 tables

An entry of an L2 table is replaced only in a table that no snapshot has: then the edit exchanges
the references of one entry in the active tree. A table that is shared is copied first, and a
copy has the references of the original.

Results:
1. `growL1Table_inv`: the L1 table moves to new clusters.
2. `getClusterTable_inv`: the L2 table that `get_cluster_table` returns may be edited.
-/

namespace QemuVmi.Qcow2.Image

open Finset Function

variable {img img' : Image} {extra held freed : Nat → Nat} {l1 : L1Table} {c i j t : Nat}

lemma l2Tables_setL2Entry (img : Image) (t j t' j' : Nat) (entry : L2Entry) :
    (img.setL2Entry t j entry).l2Tables t' j' =
      if t' = t ∧ j' = j then entry else img.l2Tables t' j' := by
  change update img.l2Tables t (update (img.l2Tables t) j entry) t' j' = _
  by_cases ht : t' = t
  · subst ht
    rw [update_self]
    by_cases hj : j' = j
    · rw [hj, update_self, if_pos ⟨rfl, rfl⟩]
    · rw [update_of_ne hj, if_neg fun h => hj h.2]
  · rw [update_of_ne ht, if_neg fun h => ht h.1]

lemma treeRefs_setL2Entry {e : L1Entry} (hi : i < l1.size) (he : l1.entries i = some e)
    (honce : img.treeRefs l1 e.table ≤ 1) (hj : j < img.l2Size) (entry : L2Entry) (c : Nat) :
    (img.setL2Entry e.table j entry).treeRefs l1 c + img.entryRefs (img.l2Tables e.table j) c =
      img.treeRefs l1 c + img.entryRefs entry c := by
  have hmem : i ∈ range l1.size := mem_range.mpr hi
  have htable : (img.setL2Entry e.table j entry).l2Refs e.table c +
      img.entryRefs (img.l2Tables e.table j) c = img.l2Refs e.table c + img.entryRefs entry c := by
    have hsum := UpdateSum.sum_update_add hj (img.l2Tables e.table) entry (img.entryRefs · c)
    rw [l2Refs, l2Refs, ← hsum]
    change ∑ j' ∈ range img.l2Size, img.entryRefs (update img.l2Tables e.table
      (update (img.l2Tables e.table) j entry) e.table j') c + _ = _
    rw [update_self]
  have hrest : ∑ i' ∈ (range l1.size).erase i,
        (img.setL2Entry e.table j entry).l1EntryRefs (l1.entries i') c =
      ∑ i' ∈ (range l1.size).erase i, img.l1EntryRefs (l1.entries i') c := by
    refine sum_congr rfl fun i' hi' => ?_
    cases he' : l1.entries i' with
    | none => rfl
    | some e' =>
      have hne : e'.table ≠ e.table := fun htable =>
        (mem_erase.mp hi').1
          (eq_of_table honce hi he (mem_range.mp (mem_erase.mp hi').2) he' htable)
      rw [l1EntryRefs, l1EntryRefs, l2Refs, l2Refs]
      refine congrArg _ (sum_congr rfl fun j' _ => ?_)
      rw [l2Tables_setL2Entry, if_neg fun h => hne h.1]
      rfl
  rw [treeRefs, treeRefs, ← add_sum_erase _ _ hmem, ← add_sum_erase _ (fun i =>
    img.l1EntryRefs (l1.entries i) c) hmem, hrest, he, l1EntryRefs, l1EntryRefs]
  omega

variable {entry : L2Entry} {size : Nat} {sn : Snapshot}

lemma Points.of_setL2Entry (h : (img.setL2Entry t j entry).Points l1 c) :
    img.Points l1 c ∨ entry.cluster = some c := by
  obtain ⟨i, hi, e, he, hc⟩ := h
  rcases hc with hc | ⟨j', hj', hc⟩
  · exact .inl ⟨i, hi, e, he, .inl hc⟩
  rw [l2Tables_setL2Entry] at hc
  split at hc
  · exact .inr hc
  · exact .inl ⟨i, hi, e, he, .inr ⟨j', hj', hc⟩⟩

lemma Copied.setL2Entry (h : img.Copied)
    (hentry : ∀ c, entry.cluster = some c → (entry.copied = true ↔ img.getRefcount c = 1)) :
    (img.setL2Entry t j entry).Copied := by
  intro i hi e he
  obtain ⟨hflag, hflags⟩ := h i hi e he
  refine ⟨hflag, fun j' hj' c hc => ?_⟩
  rw [l2Tables_setL2Entry] at hc ⊢
  by_cases hsame : e.table = t ∧ j' = j
  · rw [if_pos hsame] at hc ⊢
    exact hentry c hc
  · rw [if_neg hsame] at hc ⊢
    exact hflags j' hj' c hc

lemma entryRefs_eq (h : ∀ offset sectors, entry ≠ .compressed offset sectors) (c : Nat) :
    img.entryRefs entry c = if entry.cluster = some c then 1 else 0 := by
  cases entry with
  | compressed offset sectors => exact absurd rfl (h offset sectors)
  | unallocated | zeroPlain => rfl
  | normal d copied | zeroAlloc d copied =>
    change rangeRefs d 1 c = if some d = some c then 1 else 0
    by_cases hd : d = c
    · rw [hd, rangeRefs_self one_pos, if_pos rfl]
    · rw [rangeRefs_one_eq_zero hd, if_neg fun h => hd (Option.some.inj h)]

/-- The entry of an L2 table with `QCOW_OFLAG_COPIED` is replaced by one that is not compressed.
It keeps its cluster or points at a held one. -/
lemma Inv.setL2Entry {held' freed' : Nat → Nat} (h : img.Inv extra held freed)
    (hi : i < img.l1Size) (he : img.l1Table i = some ⟨t, true⟩) (hj : j < img.l2Size)
    (hentry : ∀ offset sectors, entry ≠ .compressed offset sectors)
    (hcounts : ∀ c, img.entryRefs entry c + held' c + freed' c =
      img.entryRefs (img.l2Tables t j) c + held c + freed c) (hheld : ∀ c, held' c ≠ 0 → held c ≠ 0)
    (hcluster : ∀ c, entry.cluster = some c → (entry.copied = true ↔ img.getRefcount c = 1) ∧
      ((img.l2Tables t j).cluster = some c ∨ held c ≠ 0)) :
    (img.setL2Entry t j entry).Inv extra held' freed' := by
  obtain ⟨honly, hothers⟩ := h.sole hi he rfl
  have htree : ∀ c, (img.setL2Entry t j entry).treeRefs img.activeL1 c +
      img.entryRefs (img.l2Tables t j) c = img.treeRefs img.activeL1 c + img.entryRefs entry c :=
    treeRefs_setL2Entry (by exact hi) he honly.le hj entry
  have hold : ∀ c, (img.l2Tables t j).cluster = some c → img.Points img.activeL1 c :=
    fun c hc => ⟨i, hi, _, he, .inr ⟨j, hj, hc⟩⟩
  -- a pointer to a cluster of the old tree is the one that was replaced
  have hless : ∀ c, img.Points img.activeL1 c →
      img.entryRefs entry c ≤ img.entryRefs (img.l2Tables t j) c := by
    intro c hc
    rw [entryRefs_eq hentry]
    split
    next hentryc =>
      rcases (hcluster c hentryc).2 with hsame | hfresh
      · rw [entryRefs_of_cluster hsame, rangeRefs_self one_pos]
      · exact absurd hc (not_points_of_refs (h.of_held hfresh).1 List.mem_cons_self)
    · exact Nat.zero_le _
  refine h.step ?_ rfl (fun sn hsn => ?_) (fun c => .inl (le_refl (img.metaRefs c))) ?_
    (fun c hc => h.fresh c (hheld c hc)) ?_ (h.copied.setL2Entry fun c hc => (hcluster c hc).1)
    h.synced
  · intro c
    have hc := hcounts c
    have htreec := htree c
    change img.getRefcount c + _ = img.getRefcount c + (img.metaRefs c +
      (img.setL2Entry t j entry).treeRefs img.activeL1 c + _ + _)
    omega
  · exact SameTree.of_l2Tables rfl (fun table htable => update_of_ne htable _ _)
      (hothers sn hsn)
  · intro c hc
    have htreec := htree c
    change img.metaRefs c + (img.setL2Entry t j entry).treeRefs img.activeL1 c ≤ 1
    rcases Points.of_setL2Entry hc with hc | hentryc
    · have honce := h.once _ List.mem_cons_self c hc
      have hlessc := hless c hc
      omega
    rcases (hcluster c hentryc).2 with hsame | hfresh
    · have honce := h.once _ List.mem_cons_self c (hold c hsame)
      have hlessc := hless c (hold c hsame)
      omega
    have hrefs := (h.of_held hfresh).1
    rw [refs_eq] at hrefs
    rw [entryRefs_eq hentry, if_pos hentryc] at htreec
    omega
  · intro c hc hpoints
    have hcountsc := hcounts c
    have htreec := htree c
    have hpos : 1 ≤ (img.setL2Entry t j entry).treeRefs img.activeL1 c := hpoints.treeRefs_pos
    have hcases : img.Points img.activeL1 c ∨ entry.cluster = some c ∧ held c ≠ 0 := by
      rcases Points.of_setL2Entry hpoints with hc | hentryc
      · exact .inl hc
      · exact (hcluster c hentryc).2.imp (hold c) fun hfresh => ⟨hentryc, hfresh⟩
    rcases hcases with hc' | ⟨hentryc, hfresh⟩
    · have honce := h.once _ List.mem_cons_self c hc'
      have hheldc : held c = 0 := by
        by_contra hfresh
        exact not_points_of_refs (h.of_held hfresh).1 List.mem_cons_self hc'
      have hfreedc : freed c = 0 := by
        by_contra hgone
        exact h.gone c hgone hc'
      omega
    · obtain ⟨hrefs, hone, hfreedc⟩ := h.of_held hfresh
      rw [refs_eq] at hrefs
      rw [entryRefs_eq hentry, if_pos hentryc] at htreec hcountsc
      omega

lemma clusterSize_pos (img : Image) : 0 < img.clusterSize := Nat.two_pow_pos _

lemma l1Clusters_pos (img : Image) (hsize : 0 < size) : 0 < img.l1Clusters size := by
  have hpos := img.clusterSize_pos
  exact Nat.div_pos (by omega) hpos

lemma snapshot_le_metaRefs (hsn : sn ∈ img.snapshots) (c : Nat) :
    rangeRefs img.l1TableOffset (img.l1Clusters img.l1Size) c +
      rangeRefs sn.l1TableOffset (img.l1Clusters sn.l1Size) c ≤ img.metaRefs c := by
  have hle := List.le_sum_of_mem (List.mem_map_of_mem
    (f := fun sn => rangeRefs sn.l1TableOffset (img.l1Clusters sn.l1Size) c) hsn)
  unfold metaRefs
  omega

lemma snapshot_ne_of_refs (hsn : sn ∈ img.snapshots) (hsize : 0 < sn.l1Size) (hc : img.refs c = 0) :
    sn.l1TableOffset ≠ c := by
  rintro rfl
  have hle := snapshot_le_metaRefs hsn sn.l1TableOffset
  rw [rangeRefs_self (img.l1Clusters_pos hsize)] at hle
  rw [refs_eq] at hc
  omega

lemma Inv.snapshot_ne (h : img.Inv extra held freed) (hsn : sn ∈ img.snapshots)
    (hsize : 0 < sn.l1Size) (hactive : 0 < img.l1Size) : sn.l1TableOffset ≠ img.l1TableOffset := by
  intro heq
  have hle := snapshot_le_metaRefs hsn sn.l1TableOffset
  have hsingle := h.single sn.l1TableOffset
  rw [rangeRefs_self (img.l1Clusters_pos hsize), heq,
    rangeRefs_self (img.l1Clusters_pos hactive)] at hle
  rw [heq] at hsingle
  omega

variable (h : img.Inv extra (held + rangeRefs t 1) freed) (hi : i < img.l1Size)

include h hi in
lemma Inv.setL1Entry {gone : Nat → Nat}
    (hrefs : ∀ c, img.l1EntryRefs (img.l1Table i) c = gone c + img.l2Refs t c)
    (hgone : ∀ c, gone c ≠ 0 → img.Points img.activeL1 c)
    (hclusters : ∀ j < img.l2Size, ∀ c, (img.l2Tables t j).cluster = some c →
      ((img.l2Tables t j).copied = true ↔ img.getRefcount c = 1) ∧ img.Points img.activeL1 c) :
    (writeL1Entry { img with
      l1Table := update img.l1Table i (some ⟨t, true⟩) } i).Inv extra held (freed + gone) := by
  have hheld : (held + rangeRefs t 1) t ≠ 0 := by
    rw [Pi.add_apply, rangeRefs_self one_pos]
    omega
  obtain ⟨hunused, _, hfreed⟩ := h.of_held hheld
  have hnot : ∀ c, img.Points img.activeL1 c → rangeRefs t 1 c = 0 := by
    intro c hc
    refine rangeRefs_one_eq_zero ?_
    rintro rfl
    exact not_points_of_refs hunused List.mem_cons_self hc
  generalize hnew : writeL1Entry { img with
    l1Table := update img.l1Table i (some ⟨t, true⟩) } i = new
  have htree : ∀ c, new.treeRefs new.activeL1 c + gone c =
      img.treeRefs img.activeL1 c + rangeRefs t 1 c := by
    intro c
    have hsum : new.treeRefs new.activeL1 c + img.l1EntryRefs (img.l1Table i) c =
        img.treeRefs img.activeL1 c + img.l1EntryRefs (some ⟨t, true⟩) c := by
      rw [← hnew]
      exact UpdateSum.sum_update_add hi img.l1Table (some ⟨t, true⟩) (img.l1EntryRefs · c)
    change _ + _ = _ + (rangeRefs t 1 c + img.l2Refs t c) at hsum
    rw [hrefs c] at hsum
    omega
  have htable : ∀ i', new.l1Table i' = if i' = i then some ⟨t, true⟩ else img.l1Table i' := by
    intro i'
    rw [← hnew]
    exact update_apply ..
  have hpoints : ∀ c, new.Points new.activeL1 c → c = t ∨ img.Points img.activeL1 c := by
    rintro c ⟨i', hi', e, he, hc⟩
    have he' : new.l1Table i' = some e := he
    rw [htable i'] at he'
    rw [← hnew] at hi' hc
    split at he'
    · cases he'
      rcases hc with hc | ⟨j, hj, hc⟩
      · exact .inl hc.symm
      · exact .inr (hclusters j hj c hc).2
    · exact .inr ⟨i', hi', e, he', hc⟩
  have hmeta : ∀ c, new.metaRefs c = img.metaRefs c := fun c => by rw [← hnew]; rfl
  have hcount : ∀ c, new.getRefcount c = img.getRefcount c := fun c => by rw [← hnew]; rfl
  refine h.step ?_ (by rw [← hnew]; rfl) (fun sn hsn => ?_)
    (fun c => .inl (hmeta c).le) ?_ ?_ ?_ ?_ ?_
  · intro c
    have htreec := htree c
    rw [hcount c, hmeta c, Pi.add_apply, Pi.add_apply]
    omega
  · rw [← hnew]
    refine SameTree.of_entries rfl rfl rfl fun i' hi' => ?_
    exact congrFun (update_of_ne (h.snapshot_ne hsn (lt_of_le_of_lt (Nat.zero_le _) hi')
        (lt_of_le_of_lt (Nat.zero_le _) hi)) _ _) i'
  · intro c hc
    have htreec := htree c
    rw [hmeta c]
    rcases hpoints c hc with rfl | hc
    · have hle := rangeRefs_le_one c 1 c
      rw [refs_eq] at hunused
      omega
    · have honce := h.once _ List.mem_cons_self c hc
      rw [hnot c hc] at htreec
      omega
  · intro c hc
    rw [hcount c]
    exact h.fresh c (by rw [Pi.add_apply]; omega)
  · intro c hc hpointsc
    have hpos := hpointsc.treeRefs_pos
    have htreec := htree c
    rw [Pi.add_apply] at hc
    rcases hpoints c hpointsc with rfl | hold
    · exact not_points_of_refs hunused List.mem_cons_self (hgone c (by omega))
    have honce := h.once _ List.mem_cons_self c hold
    rw [hnot c hold] at htreec
    by_cases hfreedc : freed c = 0
    · omega
    · exact h.gone c hfreedc hold
  · intro i' hi' e he
    rw [htable i'] at he
    rw [hcount]
    have hentries : new.l2Tables = img.l2Tables := by rw [← hnew]; rfl
    have hsize : new.l2Size = img.l2Size := by rw [← hnew]; rfl
    rw [hentries, hsize]
    split at he
    · cases he
      refine ⟨⟨fun _ => h.fresh t hheld, fun _ => rfl⟩, fun j hj c hc => ?_⟩
      rw [hcount]
      exact (hclusters j hj c hc).1
    have hi' : i' < img.l1Size := by rw [← hnew] at hi'; exact hi'
    obtain ⟨hflag, hflags⟩ := h.copied i' hi' e he
    refine ⟨hflag, fun j hj c hc => ?_⟩
    rw [hcount]
    exact hflags j hj c hc
  · intro i' hi'
    rw [htable i', ← hnew]
    rw [← hnew] at hi'
    change update img.l1Disk img.l1TableOffset _ img.l1TableOffset i' = _
    rw [update_self]
    change (if i' / 64 = i / 64 then update img.l1Table i _ i' else _) = _
    by_cases hsame : i' = i
    · rw [hsame, if_pos rfl, if_pos rfl, update_self]
    rw [if_neg hsame, update_of_ne hsame]
    split
    · rfl
    · exact h.synced i' hi'

lemma Inv.fillTable (h : img.Inv extra held freed) (ht : img.refs t = 0) (content : Nat → L2Entry) :
    Inv { img with l2Tables := update img.l2Tables t content } extra held freed := by
  have htree : ∀ l1 ∈ img.l1Tables, SameTree img l1
      { img with l2Tables := update img.l2Tables t content } l1 := fun l1 hl1 =>
    SameTree.of_l2Tables rfl (fun table htable => update_of_ne htable _ _)
      (treeRefs_eq_zero_of_refs ht hl1)
  have hactive := htree _ List.mem_cons_self
  refine h.step_same hactive rfl
    (fun sn hsn => htree _ (List.mem_cons_of_mem _ (List.mem_map_of_mem hsn)))
    (fun c => rfl) (fun c => .inl (le_refl (img.metaRefs c))) h.fresh h.gone ?_ h.synced
  intro i hi e he
  have hne : e.table ≠ t := by
    rintro rfl
    exact not_points_of_refs ht List.mem_cons_self ⟨i, hi, e, he, .inl rfl⟩
  change _ ∧ ∀ j < img.l2Size, ∀ c, (update img.l2Tables t content e.table j).cluster = some c →
      ((update img.l2Tables t content e.table j).copied = true ↔ img.getRefcount c = 1)
  rw [update_of_ne hne]
  exact h.copied i hi e he

structure Keeps (img img' : Image) : Prop where
  clusterBits : img'.clusterBits = img.clusterBits
  snapshots : img'.snapshots = img.snapshots

lemma Keeps.trans {img'' : Image} (h : Keeps img img') (h' : Keeps img' img'') :
    Keeps img img'' :=
  ⟨h'.clusterBits.trans h.clusterBits, h'.snapshots.trans h.snapshots⟩

lemma SameTables.keeps (h : SameTables img img') : Keeps img img' := by
  obtain ⟨_, _, _, _, rfl⟩ := h
  exact ⟨rfl, rfl⟩

lemma SameTables.l1Size (h : SameTables img img') : img'.l1Size = img.l1Size := by
  obtain ⟨_, _, _, _, rfl⟩ := h
  rfl

lemma Keeps.l2Size (h : Keeps img img') : img'.l2Size = img.l2Size := by
  rw [Image.l2Size, Image.l2Size, h.clusterBits]

def tableRefs : Option L1Entry → Nat → Nat
  | none => 0
  | some e => rangeRefs e.table 1

include h hi in
lemma Inv.copyTable
    {content : Nat → L2Entry}
    (hcontent : content = match img.l1Table i with
      | none => fun _ => .unallocated
      | some old => img.l2Tables old.table) :
    (writeL1Entry { img with
      l2Tables := update img.l2Tables t content
      l1Table := update img.l1Table i (some ⟨t, true⟩) } i).Inv extra held
        (freed + tableRefs (img.l1Table i)) := by
  have hheld : (held + rangeRefs t 1) t ≠ 0 := by
    rw [Pi.add_apply, rangeRefs_self one_pos]
    omega
  have hunused := (h.of_held hheld).1
  have hfill := h.fillTable hunused content
  have htable : ∀ c, l2Refs { img with l2Tables := update img.l2Tables t content } t c =
      ∑ j ∈ range img.l2Size, img.entryRefs (content j) c := by
    intro c
    change ∑ j ∈ range img.l2Size, img.entryRefs (update img.l2Tables t content t j) c = _
    rw [update_self]
  have hentry : ∀ j, update img.l2Tables t content t j = content j := fun j => by rw [update_self]
  cases he : img.l1Table i with
  | none =>
    rw [he] at hcontent
    refine hfill.setL1Entry hi (fun c => ?_) (fun c hc => absurd rfl hc) fun j hj c hc => ?_
    · change l1EntryRefs _ (img.l1Table i) c = _
      rw [he, htable, hcontent]
      have hzero : ∑ j ∈ range img.l2Size, img.entryRefs .unallocated c = 0 :=
        sum_eq_zero fun j _ => rfl
      change 0 = 0 + ∑ j ∈ range img.l2Size, img.entryRefs .unallocated c
      rw [hzero]
    · change (update img.l2Tables t content t j).cluster = some c at hc
      rw [hentry, hcontent] at hc
      cases hc
  | some e =>
    rw [he] at hcontent
    change content = img.l2Tables e.table at hcontent
    have hne : e.table ≠ t := by
      rintro rfl
      exact not_points_of_refs hunused List.mem_cons_self ⟨i, hi, e, he, .inl rfl⟩
    have hpoints : ∀ c, e.table = c ∨ (∃ j < img.l2Size, (content j).cluster = some c) →
        Points { img with l2Tables := update img.l2Tables t content } img.activeL1 c := by
      intro c hc
      refine ⟨i, hi, e, he, hc.imp id ?_⟩
      rintro ⟨j, hj, hc⟩
      refine ⟨j, hj, ?_⟩
      change (update img.l2Tables t content e.table j).cluster = some c
      rwa [update_of_ne hne, ← hcontent]
    refine hfill.setL1Entry hi (fun c => ?_) (fun c hc => ?_) fun j hj c hc => ?_
    · change l1EntryRefs _ (img.l1Table i) c = _
      rw [he, htable, hcontent]
      change rangeRefs e.table 1 c + ∑ j ∈ range img.l2Size, img.entryRefs
        (update img.l2Tables t _ e.table j) c = _
      rw [update_of_ne hne]
      rfl
    · refine hpoints c (.inl ?_)
      by_contra hec
      exact hc (rangeRefs_one_eq_zero hec)
    change (update img.l2Tables t content t j).cluster = some c at hc
    change ((update img.l2Tables t content t j).copied = true ↔ _) ∧ _
    rw [hentry] at hc ⊢
    refine ⟨?_, hpoints c (.inr ⟨j, hj, hc⟩)⟩
    rw [hcontent] at hc ⊢
    exact (h.copied i hi e he).2 j hj c hc

/-- `l2_allocate`: the L1 entry has a copy of its table, and the old table is to be freed. -/
lemma l2Allocate_inv (hrun : img.l2Allocate i = some (t, img')) (h : img.Inv extra held freed)
    (hi : i < img.l1Size) :
    img'.Inv extra held (freed + tableRefs (img.l1Table i)) ∧ Keeps img img' ∧
      img'.l1Table i = some ⟨t, true⟩ ∧ img'.l1Size = img.l1Size := by
  obtain ⟨⟨table, next⟩, halloc, hrun⟩ := Option.bind_eq_some_iff.mp hrun
  obtain ⟨hinv, ⟨r, f, blocks, _, rfl⟩, _⟩ := allocClusters_inv halloc h
  cases hrun
  exact ⟨hinv.copyTable hi rfl, ⟨rfl, rfl⟩, update_self .., rfl⟩

lemma loadL2Table_inv (hrun : img.loadL2Table i = some (t, img')) (h : img.Inv extra held freed)
    (hi : i < img.l1Size) :
    img'.Inv extra held freed ∧ Keeps img img' ∧ img'.l1Table i = some ⟨t, true⟩ ∧
      img'.l1Size = img.l1Size := by
  unfold loadL2Table at hrun
  split at hrun
  next table he =>
    cases hrun
    exact ⟨h, ⟨rfl, rfl⟩, he, rfl⟩
  next old he =>
    obtain ⟨⟨table, next⟩, halloc, hrun⟩ := Option.bind_eq_some_iff.mp hrun
    obtain ⟨hinv, hkeeps, htable, hsize⟩ := l2Allocate_inv halloc h hi
    cases hrun
    rw [he] at hinv
    obtain ⟨hinv, hsame⟩ := freeClusters_inv hinv
    refine ⟨hinv, hkeeps.trans hsame.keeps, ?_, ?_⟩
    · obtain ⟨_, _, _, _, heq⟩ := hsame
      rw [heq, ← htable]
    · obtain ⟨_, _, _, _, heq⟩ := hsame
      rw [heq, ← hsize]
  next he =>
    have hnew := l2Allocate_inv hrun h hi
    rwa [he] at hnew

lemma extend_eq_some {l1Table : Nat → Option L1Entry} {e : L1Entry}
    (h : (if i < size then l1Table i else none) = some e) : i < size ∧ l1Table i = some e := by
  split at h
  · exact ⟨‹_›, h⟩
  · cases h

lemma Inv.exchange {old new : Nat → Nat} (h : img.Inv extra (held + new) freed)
    (hnew : ∀ c, new c ≤ 1) (hold : ∀ c, old c ≤ img.metaRefs c)
    (hmeta : ∀ c, img'.metaRefs c + old c = img.metaRefs c + new c)
    (hcounts : img'.getRefcount = img.getRefcount)
    (hactive : SameTree img img.activeL1 img' img'.activeL1)
    (hsnapshots : img'.snapshots = img.snapshots)
    (htrees : ∀ sn ∈ img.snapshots, SameTree img (img.snapshotL1 sn) img' (img'.snapshotL1 sn))
    (hcopied : img'.Copied) (hsynced : img'.Synced) : img'.Inv extra held (freed + old) := by
  refine h.step_same hactive hsnapshots htrees (fun c => ?_) (fun c => ?_) ?_ ?_ hcopied hsynced
  · have hc := hmeta c
    rw [hcounts, Pi.add_apply, Pi.add_apply]
    omega
  · have hc := hmeta c
    by_cases hzero : new c = 0
    · exact .inl (by omega)
    have hheld : (held + new) c ≠ 0 := by
      rw [Pi.add_apply]
      omega
    have hrefs := (h.of_held hheld).1
    have hle := hnew c
    refine .inr ⟨?_, hrefs⟩
    rw [refs_eq] at hrefs
    omega
  · intro c hc
    rw [hcounts]
    exact h.fresh c (by rw [Pi.add_apply]; omega)
  · intro c hc hpoints
    by_cases hfreed : freed c = 0
    · -- the old clusters are metadata, which no L1 table points at
      have honce := h.once _ List.mem_cons_self c hpoints
      have hpos := hpoints.treeRefs_pos
      have hle := hold c
      rw [Pi.add_apply] at hc
      omega
    · exact h.gone c hfreed hpoints

lemma SameTree.extend (hsize : l1.size ≤ size) :
    SameTree img l1 img ⟨fun i => if i < l1.size then l1.entries i else none, size⟩ := by
  constructor
  · intro c
    have hzero : ∀ i, l1.size ≤ i →
        img.l1EntryRefs (if i < l1.size then l1.entries i else none) c = 0 := by
      intro i hi
      rw [if_neg (not_lt.mpr hi), l1EntryRefs]
    refine (eventually_constant_sum hzero hsize).trans (sum_congr rfl fun i hi => ?_)
    rw [if_pos (mem_range.mp hi)]
  · rintro c ⟨i, _, e, he, hc⟩
    obtain ⟨hi, he⟩ := extend_eq_some he
    exact ⟨i, hi, e, he, hc⟩

lemma Inv.moveL1 {offset newSize : Nat}
    (h : img.Inv extra (held + rangeRefs offset (img.l1Clusters newSize)) freed)
    (hsize : img.l1Size ≤ newSize) (hpos : 0 < newSize) {newTable : Nat → Option L1Entry}
    (hnew : newTable = fun i => if i < img.l1Size then img.l1Table i else none) :
    Inv { img.writeL1Table offset newSize newTable with
      l1TableOffset := offset
      l1Table := newTable
      l1Size := newSize } extra held
        (freed + rangeRefs img.l1TableOffset (img.l1Clusters img.l1Size)) := by
  have hunused : img.refs offset = 0 := by
    refine (h.of_held ?_).1
    rw [Pi.add_apply, rangeRefs_self (img.l1Clusters_pos hpos)]
    omega
  refine h.exchange (rangeRefs_le_one _ _) (fun c => ?_) (fun c => ?_) rfl ?_ rfl (fun sn hsn => ?_)
    ?_ ?_
  · unfold metaRefs
    omega
  · simp only [metaRefs, blockRefs, l1Clusters, sizeToClusters, clusterSize, writeL1Table]
    omega
  · rw [hnew]
    exact (SameTree.extend hsize).trans (.of_entries rfl rfl rfl fun _ _ => rfl)
  · refine SameTree.of_entries rfl rfl rfl fun i hi => ?_
    exact congrFun (update_of_ne
      (snapshot_ne_of_refs hsn (lt_of_le_of_lt (Nat.zero_le _) hi) hunused) _ _) i
  · intro i _ e he
    rw [hnew] at he
    obtain ⟨hi, he⟩ := extend_eq_some he
    exact h.copied i hi e he
  · exact fun i hi => (congrFun (update_self ..) i).trans (if_pos hi)

lemma le_growL1Size (minSize fuel size : Nat) : size ≤ growL1Size minSize fuel size := by
  induction fuel generalizing size with
  | zero => exact le_refl _
  | succ fuel ih =>
    unfold growL1Size
    split
    · exact le_trans (by omega) (ih ((size * 3 + 1) / 2))
    · exact le_refl _

lemma minSize_le_growL1Size {minSize fuel : Nat} (hpos : 0 < size) (hfuel : minSize ≤ size + fuel) :
    minSize ≤ growL1Size minSize fuel size := by
  induction fuel generalizing size with
  | zero => exact hfuel
  | succ fuel ih =>
    unfold growL1Size
    split
    · exact ih (by omega) (by omega)
    · omega

/-- `qcow2_grow_l1_table`. -/
lemma growL1Table_inv {minSize : Nat} {exactSize : Bool}
    (hrun : img.growL1Table minSize exactSize = some img') (h : img.Inv extra held freed) :
    img'.Inv extra held freed ∧ Keeps img img' ∧ minSize ≤ img'.l1Size := by
  unfold growL1Table at hrun
  split at hrun
  next hmin =>
    cases hrun
    exact ⟨h, ⟨rfl, rfl⟩, hmin⟩
  rename_i hmin
  simp only at hrun
  generalize hnew : (if exactSize = true then minSize
    else growL1Size minSize minSize (if img.l1Size = 0 then 1 else img.l1Size)) = newSize at hrun
  have hsize : img.l1Size ≤ newSize ∧ 0 < newSize ∧ minSize ≤ newSize := by
    rw [← hnew]
    split
    · omega
    have hstart : img.l1Size ≤ (if img.l1Size = 0 then 1 else img.l1Size) ∧
        0 < if img.l1Size = 0 then 1 else img.l1Size := by split <;> omega
    have hle := le_growL1Size minSize minSize (if img.l1Size = 0 then 1 else img.l1Size)
    exact ⟨hstart.1.trans hle, hstart.2.trans_le hle,
      minSize_le_growL1Size hstart.2 (Nat.le_add_left _ _)⟩
  split at hrun
  · cases hrun
  obtain ⟨⟨offset, next⟩, halloc, hrun⟩ := Option.bind_eq_some_iff.mp hrun
  obtain ⟨hinv, ⟨r, f, blocks, _, rfl⟩, _⟩ := allocClusters_inv halloc h
  obtain ⟨hfree, hsame⟩ := freeClusters_inv (hinv.moveL1 hsize.1 hsize.2.1 rfl)
  cases hrun
  exact ⟨hfree, ⟨hsame.keeps.clusterBits, hsame.keeps.snapshots⟩,
    hsize.2.2.trans hsame.l1Size.symm.le⟩

/-- `get_cluster_table`: the table has `QCOW_OFLAG_COPIED` in the active L1 table. -/
lemma getClusterTable_inv {offset : Nat} (hrun : img.getClusterTable offset = some (t, img'))
    (h : img.Inv extra held freed) : img'.Inv extra held freed ∧ Keeps img img' ∧
      ∃ i < img'.l1Size, img'.l1Table i = some ⟨t, true⟩ := by
  obtain ⟨grown, hgrow, hrun⟩ := Option.bind_eq_some_iff.mp hrun
  have hgrown : grown.Inv extra held freed ∧ Keeps img grown := by
    split at hgrow
    · cases hgrow
      exact ⟨h, rfl, rfl⟩
    · exact ⟨(growL1Table_inv hgrow h).1, (growL1Table_inv hgrow h).2.1⟩
  split at hrun
  next hi =>
    obtain ⟨hinv, hkeeps, htable, hsize⟩ := loadL2Table_inv hrun hgrown.1 hi
    exact ⟨hinv, hgrown.2.trans hkeeps, _, hsize ▸ hi, htable⟩
  · cases hrun

end QemuVmi.Qcow2.Image
