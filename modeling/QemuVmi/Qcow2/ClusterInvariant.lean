import QemuVmi.Lib.OptionFold
import QemuVmi.Qcow2.TableEdits

/-!
# Writes, zero clusters and discarded clusters keep the invariant

Each loop over the entries of an L2 table replaces one entry after the other, and the clusters of
the old entries are freed. A write holds the clusters that it allocates until they are linked.

Results:
1. `allocClusterOffset_inv`, `allocClusterLinkL2_inv`, `write_inv`: allocating writes.
-/

namespace QemuVmi.Qcow2.Image

open Option

variable {img img' : Image} {extra held freed : Nat → Nat} {c j n t : Nat}

/-- The active L1 table has the L2 table with `QCOW_OFLAG_COPIED`. -/
def Editable (img : Image) (t : Nat) : Prop :=
  ∃ i < img.l1Size, img.l1Table i = some ⟨t, true⟩

lemma SameTables.editable (h : SameTables img img') (ht : img.Editable t) : img'.Editable t := by
  obtain ⟨_, _, _, _, rfl⟩ := h
  exact ht

lemma freeAnyClusters_inv {e : L2Entry} (h : img.Inv extra held (freed + img.entryRefs e)) :
    (img.freeAnyClusters e).Inv extra held freed ∧ SameTables img (img.freeAnyClusters e) := by
  cases e with
  | compressed offset sectors | normal cluster copied | zeroAlloc cluster copied =>
    exact freeClusters_inv h
  | zeroPlain | unallocated => exact ⟨h, .refl img⟩

def listRefs (img : Image) (l : List L2Entry) (c : Nat) : Nat :=
  (l.map fun e => img.entryRefs e c).sum

lemma listRefs_cons (img : Image) (e : L2Entry) (l : List L2Entry) :
    img.listRefs (e :: l) = img.entryRefs e + img.listRefs l := rfl

lemma SameTables.listRefs (h : SameTables img img') (l : List L2Entry) :
    img'.listRefs l = img.listRefs l := by
  obtain ⟨_, _, _, _, rfl⟩ := h
  rfl

lemma foldl_freeAnyClusters_inv {l : List L2Entry}
    (h : img.Inv extra held (freed + img.listRefs l)) :
    (l.foldl freeAnyClusters img).Inv extra held freed := by
  induction l generalizing img with
  | nil => exact h
  | cons e l ih =>
    rw [listRefs_cons, add_comm (img.entryRefs e), ← add_assoc] at h
    obtain ⟨hfirst, hsame⟩ := freeAnyClusters_inv h
    rw [← hsame.listRefs] at hfirst
    exact ih hfirst

variable {num fuel bytes cluster nbSectors nbClusters guestOffset hostOffset' : Nat}

lemma linkEntries_inv (h : img.Inv extra (held + rangeRefs cluster n) freed)
    (ht : img.Editable t) (hj : j + n ≤ img.l2Size) :
    (linkEntries t n j cluster img).2.Inv extra held
        (freed + img.listRefs (linkEntries t n j cluster img).1) ∧
      Keeps img (linkEntries t n j cluster img).2 := by
  induction n generalizing img j cluster freed with
  | zero =>
    rw [rangeRefs_zero, add_zero] at h
    exact ⟨h, rfl, rfl⟩
  | succ n ih =>
    obtain ⟨i, hi, he⟩ := ht
    have hfresh : (held + rangeRefs cluster (n + 1)) cluster ≠ 0 := by
      rw [Pi.add_apply, rangeRefs_self (Nat.succ_pos n)]
      omega
    have hset : (img.setL2Entry t j (.normal cluster true)).Inv extra
        (held + rangeRefs (cluster + 1) n) (freed + img.entryRefs (img.l2Tables t j)) := by
      refine h.setL2Entry hi he (by omega) (fun _ _ heq => by cases heq) ?_ ?_ ?_
      · intro c
        rw [rangeRefs_succ]
        simp only [Pi.add_apply, entryRefs]
        omega
      · intro c hc
        rw [rangeRefs_succ]
        simp only [Pi.add_apply] at hc ⊢
        omega
      · rintro c hc
        cases hc
        exact ⟨⟨fun _ => h.fresh cluster hfresh, fun _ => rfl⟩, .inr hfresh⟩
    obtain ⟨hinv, hkeeps⟩ := ih (j := j + 1) hset ⟨i, hi, he⟩ (by
      change j + 1 + n ≤ img.l2Size
      omega)
    refine ⟨?_, hkeeps.clusterBits, hkeeps.snapshots⟩
    change Inv _ extra held (freed + img.listRefs (img.l2Tables t j ::
      (linkEntries t n (j + 1) (cluster + 1) (img.setL2Entry t j (.normal cluster true))).1))
    rwa [listRefs_cons, ← add_assoc]

/-- `qcow2_alloc_cluster_link_l2` takes the clusters of the allocation. -/
lemma allocClusterLinkL2_inv {m : QCowL2Meta} (hrun : img.allocClusterLinkL2 m = some img')
    (h : img.Inv extra (held + rangeRefs m.allocOffset m.nbClusters) freed) :
    img'.Inv extra held freed := by
  unfold allocClusterLinkL2 at hrun
  split at hrun
  · cases hrun
  simp only at hrun
  obtain ⟨⟨table, next⟩, htable, hrun⟩ := bind_eq_some_iff.mp hrun
  obtain ⟨hnext, hkeeps, hedit⟩ := getClusterTable_inv htable h
  simp only at hrun
  split at hrun
  · cases hrun
  rename_i hsize
  cases hrun
  have hj : img.offsetToL2Index m.offset + m.nbClusters ≤ next.l2Size := by
    rw [hkeeps.l2Size]
    omega
  obtain ⟨hlink, hkeeps'⟩ := linkEntries_inv hnext hedit hj
  have hrefs : ∀ l, listRefs (linkEntries table m.nbClusters
      (img.offsetToL2Index m.offset) m.allocOffset next).2 l = next.listRefs l := by
    intro l
    funext c
    simp only [listRefs, entryRefs_congr hkeeps'.clusterBits]
  rw [← hrefs] at hlink
  exact foldl_freeAnyClusters_inv hlink

def pending (m : List QCowL2Meta) (c : Nat) : Nat :=
  (m.map fun m => rangeRefs m.allocOffset m.nbClusters c).sum

lemma pending_cons (new : QCowL2Meta) (m : List QCowL2Meta) :
    pending (new :: m) = pending m + rangeRefs new.allocOffset new.nbClusters :=
  add_comm (rangeRefs new.allocOffset new.nbClusters) (pending m)

variable {hostOffset offset : Nat}

lemma handleCopied_inv {bytes' : Nat} {copied : Bool}
    (hrun : img.handleCopied guestOffset hostOffset bytes = some (copied, hostOffset', bytes', img'))
    (h : img.Inv extra held freed) : img'.Inv extra held freed := by
  unfold handleCopied at hrun
  split at hrun
  · cases hrun
  simp only at hrun
  obtain ⟨⟨table, next⟩, htable, hrun⟩ := bind_eq_some_iff.mp hrun
  obtain ⟨hnext, _⟩ := getClusterTable_inv htable h
  have hsame : next = img' := by
    simp only at hrun
    split at hrun
    · split at hrun <;> cases hrun <;> rfl
    · cases hrun
      rfl
  exact hsame ▸ hnext

lemma doAllocClusterOffset_inv
    (hrun : img.doAllocClusterOffset hostOffset n = some (cluster, nbClusters, img'))
    (h : img.Inv extra held freed) :
    img'.Inv extra (held + rangeRefs cluster nbClusters) freed := by
  unfold doAllocClusterOffset at hrun
  split at hrun
  · obtain ⟨⟨offset, next⟩, halloc, hrun⟩ := bind_eq_some_iff.mp hrun
    cases hrun
    exact (allocClusters_inv halloc h).1
  obtain ⟨⟨i, next⟩, halloc, hrun⟩ := bind_eq_some_iff.mp hrun
  cases hrun
  exact allocClustersAt_inv halloc h

lemma handleAlloc_inv {alloc : Option (Nat × Nat × QCowL2Meta)}
    (hrun : img.handleAlloc guestOffset hostOffset bytes = some (alloc, img'))
    (h : img.Inv extra held freed) :
    img'.Inv extra (held + pending (alloc.map (·.2.2)).toList) freed := by
  obtain ⟨⟨table, next⟩, htable, hrun⟩ := bind_eq_some_iff.mp hrun
  obtain ⟨hnext, _⟩ := getClusterTable_inv htable h
  simp only at hrun
  split at hrun
  · cases hrun
  obtain ⟨⟨cluster, nbClusters, allocated⟩, halloc, hrun⟩ := bind_eq_some_iff.mp hrun
  have hinv := doAllocClusterOffset_inv halloc hnext
  simp only at hrun
  split at hrun
  next hzero =>
    cases hrun
    rwa [hzero, rangeRefs_zero] at hinv
  · split at hrun
    · cases hrun
    · cases hrun
      exact hinv

lemma allocOffsetLoop_inv {start remaining clusterOffset curBytes : Nat}
    {remaining' : Nat} {m m' : List QCowL2Meta}
    (hrun : allocOffsetLoop fuel start remaining clusterOffset curBytes hostOffset m img =
      some (remaining', hostOffset', m', img'))
    (h : img.Inv extra (pending m) freed) : img'.Inv extra (pending m') freed := by
  induction fuel generalizing start remaining clusterOffset curBytes hostOffset m img with
  | zero => cases hrun
  | succ fuel ih =>
    simp only [allocOffsetLoop] at hrun
    split at hrun
    · cases hrun
    split at hrun
    · cases hrun
      exact h
    obtain ⟨⟨copied, offset, bytes, next⟩, hcopied, hrun⟩ := bind_eq_some_iff.mp hrun
    have hnext := handleCopied_inv hcopied h
    simp only at hrun
    split at hrun
    · exact ih hrun hnext
    split at hrun
    · cases hrun
      exact hnext
    obtain ⟨⟨alloc, next'⟩, halloc, hrun⟩ := bind_eq_some_iff.mp hrun
    have hnext' := handleAlloc_inv halloc hnext
    cases alloc with
    | none =>
      cases hrun
      exact hnext'
    | some found =>
      obtain ⟨offset', bytes', new⟩ := found
      have hpending : pending m + pending [new] = pending (new :: m) :=
        (pending_cons new m).symm
      exact ih hrun (hpending ▸ hnext')

lemma allocClusterOffset_inv {num' : Nat} {m : List QCowL2Meta}
    (hrun : img.allocClusterOffset offset num = some (num', hostOffset, m, img'))
    (h : img.Inv extra 0 freed) : img'.Inv extra (pending m) freed := by
  unfold allocClusterOffset at hrun
  split at hrun
  · cases hrun
  obtain ⟨⟨remaining, hostOffset', m', next⟩, hloop, hrun⟩ := bind_eq_some_iff.mp hrun
  simp only at hrun
  split at hrun
  · cases hrun
  · cases hrun
    exact allocOffsetLoop_inv hloop h

lemma write_inv (hrun : img.write offset num = some img') (h : img.Inv 0 0 0) : img'.Inv 0 0 0 := by
  obtain ⟨⟨num', hostOffset, m, next⟩, halloc, hrun⟩ := bind_eq_some_iff.mp hrun
  have hnext := allocClusterOffset_inv halloc h
  simp only at hrun
  clear halloc
  induction m generalizing next with
  | nil =>
    cases hrun
    exact hnext
  | cons new m ih =>
    obtain ⟨linked, hlink, hrun⟩ := OptionFold.foldlM_cons_eq_some.mp hrun
    rw [pending_cons] at hnext
    exact ih linked hrun (allocClusterLinkL2_inv hlink hnext)

/-- What one step of a loop over the entries of an L2 table keeps. -/
structure EditsTo (img : Image) (t : Nat) (img' : Image) (extra held freed : Nat → Nat) :
    Prop where
  inv : img'.Inv extra held freed
  keeps : Keeps img img'
  editable : img'.Editable t

lemma Inv.clearEntry {entry : L2Entry} (h : img.Inv extra held freed) (ht : img.Editable t)
    (hj : j < img.l2Size) (hentry : entry = .zeroPlain ∨ entry = .unallocated) :
    EditsTo img t ((img.setL2Entry t j entry).freeAnyClusters (img.l2Tables t j)) extra held freed := by
  obtain ⟨i, hi, he⟩ := ht
  have hset : (img.setL2Entry t j entry).Inv extra held (freed + img.entryRefs (img.l2Tables t j)) := by
    refine h.setL2Entry hi he hj ?_ ?_ (fun c hc => hc) ?_
    · rcases hentry with rfl | rfl <;> exact fun _ _ heq => by cases heq
    · intro c
      rw [Pi.add_apply]
      rcases hentry with rfl | rfl <;> simp only [entryRefs] <;> omega
    · rcases hentry with rfl | rfl <;> exact fun c hc => by cases hc
  obtain ⟨hinv, hsame⟩ := freeAnyClusters_inv hset
  exact ⟨hinv, ⟨hsame.keeps.clusterBits, hsame.keeps.snapshots⟩, hsame.editable ⟨i, hi, he⟩⟩

lemma setZero_cluster (e : L2Entry) : e.setZero.cluster = e.cluster := by cases e <;> rfl

lemma setZero_copied (e : L2Entry) : e.setZero.copied = e.copied := by cases e <;> rfl

lemma entryRefs_setZero (img : Image) (e : L2Entry) (c : Nat) :
    img.entryRefs e.setZero c = img.entryRefs e c := by
  cases e <;> rfl

lemma Inv.setZero (h : img.Inv extra held freed) (ht : img.Editable t) (hj : j < img.l2Size)
    (hold : ∀ offset sectors, img.l2Tables t j ≠ .compressed offset sectors) :
    EditsTo img t (img.setL2Entry t j (img.l2Tables t j).setZero) extra held freed := by
  obtain ⟨i, hi, he⟩ := ht
  refine ⟨h.setL2Entry hi he hj ?_ ?_ (fun c hc => hc) ?_, ⟨rfl, rfl⟩, i, hi, he⟩
  · intro offset sectors heq
    cases hentry : img.l2Tables t j with
    | compressed o s => exact hold o s hentry
    | unallocated | zeroPlain | normal cluster copied | zeroAlloc cluster copied =>
      rw [hentry] at heq
      cases heq
  · exact fun c => by rw [entryRefs_setZero]
  · intro c hc
    rw [setZero_cluster] at hc
    rw [setZero_copied]
    exact ⟨(h.copied i hi _ he).2 j hj c hc, .inl hc⟩

/-- A loop over entries of an L2 table keeps the invariant if its steps do. -/
def EditLoop (loop : Nat → Nat → Nat → Image → Image) : Prop :=
  ∀ (t n j : Nat) (img : Image) (extra held freed : Nat → Nat), img.Inv extra held freed → img.Editable t →
    j + n ≤ img.l2Size → (loop t n j img).Inv extra held freed ∧ Keeps img (loop t n j img)

lemma EditsTo.rest {next : Image} (h : EditsTo img t next extra held freed)
    (hrest : img'.Inv extra held freed ∧ Keeps next img') : img'.Inv extra held freed ∧ Keeps img img' :=
  ⟨hrest.1, h.keeps.trans hrest.2⟩

lemma zeroLoop_editLoop : EditLoop zeroLoop := by
  intro t n
  induction n with
  | zero => exact fun j img extra held freed h _ _ => ⟨h, rfl, rfl⟩
  | succ n ih =>
    intro j img extra held freed h ht hj
    have hnext : ∀ next, EditsTo img t next extra held freed →
        (zeroLoop t n (j + 1) next).Inv extra held freed ∧ Keeps img (zeroLoop t n (j + 1) next) := by
      intro next hnext
      refine hnext.rest (ih (j + 1) next extra held freed hnext.inv hnext.editable ?_)
      rw [hnext.keeps.l2Size]
      omega
    unfold zeroLoop
    split
    next offset sectors hold =>
      have hclear := h.clearEntry ht (j := j) (by omega) (.inl rfl)
      rw [hold] at hclear
      exact hnext _ hclear
    next hold => exact hnext _ (h.setZero ht (by omega) hold)

lemma discardLoop_editLoop : EditLoop discardLoop := by
  intro t n
  induction n with
  | zero => exact fun j img extra held freed h _ _ => ⟨h, rfl, rfl⟩
  | succ n ih =>
    intro j img extra held freed h ht hj
    simp only [discardLoop]
    split
    · exact ih (j + 1) img extra held freed h ht (by omega)
    have hclear := h.clearEntry ht (j := j) (by omega)
      (show (if img.qcowVersion ≥ 3 then L2Entry.zeroPlain else .unallocated) = .zeroPlain ∨
        (if img.qcowVersion ≥ 3 then L2Entry.zeroPlain else .unallocated) = .unallocated by
          split <;> simp)
    refine hclear.rest (ih (j + 1) _ extra held freed hclear.inv hclear.editable ?_)
    rw [hclear.keeps.l2Size]
    omega

lemma eachL2_inv {loop : Nat → Nat → Nat → Image → Image} (hloop : EditLoop loop)
    (hrun : eachL2 loop fuel offset nbClusters img = some img')
    (h : img.Inv extra held freed) : img'.Inv extra held freed := by
  induction fuel generalizing offset nbClusters img with
  | zero => cases hrun
  | succ fuel ih =>
    unfold eachL2 at hrun
    split at hrun
    · cases hrun
      exact h
    obtain ⟨⟨n, next⟩, hsingle, hrun⟩ := bind_eq_some_iff.mp hrun
    obtain ⟨⟨table, loaded⟩, htable, hsingle⟩ := bind_eq_some_iff.mp hsingle
    obtain ⟨hloaded, hkeeps, hedit⟩ := getClusterTable_inv htable h
    cases hsingle
    have hindex : img.offsetToL2Index offset < img.l2Size :=
      Nat.mod_lt _ (Nat.two_pow_pos _)
    obtain ⟨hnext, -⟩ := hloop table
      (min nbClusters (img.l2Size - img.offsetToL2Index offset)) (img.offsetToL2Index offset)
      loaded extra held freed hloaded hedit (by rw [hkeeps.l2Size]; omega)
    exact ih hrun hnext

lemma zeroClusters_inv (hrun : img.zeroClusters offset nbSectors = some img')
    (h : img.Inv extra held freed) : img'.Inv extra held freed := by
  unfold zeroClusters at hrun
  split at hrun
  · cases hrun
  · exact eachL2_inv zeroLoop_editLoop hrun h

lemma discardClusters_inv
    (hrun : img.discardClusters offset nbSectors = some img') (h : img.Inv extra held freed) :
    img'.Inv extra held freed := by
  simp only [discardClusters] at hrun
  split at hrun
  · cases hrun
    exact h
  · exact eachL2_inv discardLoop_editLoop hrun h

end QemuVmi.Qcow2.Image
