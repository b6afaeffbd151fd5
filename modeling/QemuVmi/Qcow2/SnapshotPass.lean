import QemuVmi.Qcow2.ClusterInvariant

/-!
# The pass over an L1 table

`qcow2_update_snapshot_refcount` adds the addend to the count of a cluster once for each path from
the L1 table to it, and sets `QCOW_OFLAG_COPIED` by the new counts. It leaves all pointers.

Results:
1. `snapshotPass_counts`: the counts after the pass.
-/

namespace QemuVmi.Qcow2

open Option Function Int Nat

/-- The entry with another `QCOW_OFLAG_COPIED`. -/
def L2Entry.withCopied (copied : Bool) : L2Entry → L2Entry
  | .normal cluster _ => .normal cluster copied
  | .zeroAlloc cluster _ => .zeroAlloc cluster copied
  | .unallocated => .unallocated
  | .zeroPlain => .zeroPlain
  | .compressed offset sectors => .compressed offset sectors

/-- Two entries differ in `QCOW_OFLAG_COPIED` at most. -/
def L2Entry.SameUse (e e' : L2Entry) : Prop := e'.withCopied false = e.withCopied false

variable {e e' : L2Entry}

lemma L2Entry.SameUse.cluster (h : SameUse e e') : e'.cluster = e.cluster := by
  have hcluster : ∀ e : L2Entry, (e.withCopied false).cluster = e.cluster := fun e => by
    cases e <;> rfl
  rw [← hcluster e, ← hcluster e', h]

variable {change' : Nat → Int}

namespace Image

open Finset

variable {img img' img'' : Image} {addend : Int} {c i j t : Nat}

lemma SameUse.entryRefs (h : L2Entry.SameUse e e') (c : Nat) :
    img.entryRefs e' c = img.entryRefs e c := by
  have hrefs : ∀ e : L2Entry, img.entryRefs (e.withCopied false) c = img.entryRefs e c :=
    fun e => by cases e <;> rfl
  rw [← hrefs e, ← hrefs e', h]

structure PassStep (img img' : Image) (change : Nat → Int) : Prop where
  same : ∃ r f l2, img' = { img with refcounts := r, freeClusterIndex := f, l2Tables := l2 }
  entries : ∀ t j, L2Entry.SameUse (img.l2Tables t j) (img'.l2Tables t j)
  counts : ∀ c, (img'.getRefcount c : Int) = img.getRefcount c + change c

lemma PassStep.refl (img : Image) : PassStep img img 0 :=
  ⟨⟨_, _, _, rfl⟩, fun _ _ => rfl, fun _ => (add_zero _).symm⟩

variable {change : Nat → Int} {refcount n offset size : Nat} {l1 l1' : L1Copy}

section
variable (h : PassStep img img' change)
include h

lemma PassStep.trans
    (h' : PassStep img' img'' change') : PassStep img img'' (change + change') where
  same := by
    obtain ⟨_, _, _, rfl⟩ := h.same
    obtain ⟨_, _, _, rfl⟩ := h'.same
    exact ⟨_, _, _, rfl⟩
  entries t j := (h'.entries t j).trans (h.entries t j)
  counts c := by rw [h'.counts c, h.counts c, Pi.add_apply, add_assoc]

lemma PassStep.clusterBits : img'.clusterBits = img.clusterBits := by
  obtain ⟨_, _, _, rfl⟩ := h.same
  rfl

lemma PassStep.l2Size : img'.l2Size = img.l2Size := by
  rw [Image.l2Size, Image.l2Size, h.clusterBits]

lemma PassStep.entryRefs (t j c : Nat) :
    img'.entryRefs (img'.l2Tables t j) c = img.entryRefs (img.l2Tables t j) c := by
  rw [entryRefs_congr h.clusterBits, SameUse.entryRefs (h.entries t j)]

lemma PassStep.l1EntryRefs (e : Option L1Entry) (c : Nat) :
    img'.l1EntryRefs e c = img.l1EntryRefs e c := by
  cases e with
  | none => rfl
  | some e =>
    rw [Image.l1EntryRefs, Image.l1EntryRefs, l2Refs, l2Refs, h.l2Size]
    exact congrArg _ (sum_congr rfl fun j _ => h.entryRefs e.table j c)
end

lemma l1EntryRefs_of_table {e e' : Option L1Entry} (h : e'.map (·.table) = e.map (·.table))
    (c : Nat) : img.l1EntryRefs e' c = img.l1EntryRefs e c := by
  cases e with
  | none => rw [map_eq_none_iff.mp h]
  | some e =>
    obtain ⟨e'', rfl, htable⟩ := map_eq_some_iff.mp h
    rw [Image.l1EntryRefs, Image.l1EntryRefs, htable]

lemma updateClusterRefcount_counts {cluster : Nat}
    (hrun : img.updateClusterRefcount cluster addend = some (refcount, img')) :
    (∃ r f, img' = { img with refcounts := r, freeClusterIndex := f }) ∧
      (∀ x, (img'.getRefcount x : Int) = img.getRefcount x + addend * rangeRefs cluster 1 x) ∧
      refcount = img'.getRefcount cluster := by
  unfold updateClusterRefcount at hrun
  split at hrun
  next hzero =>
    cases hrun
    exact ⟨⟨_, _, rfl⟩, fun x => by rw [hzero, Int.zero_mul, add_zero], rfl⟩
  · split at hrun
    next next hok =>
      cases hrun
      exact ⟨(updateRefcount_counts hok).1, (updateRefcount_counts hok).2, rfl⟩
    · cases hrun

lemma PassStep.of_counts
    (hsame : ∃ r f, img' = { img with refcounts := r, freeClusterIndex := f })
    (hcounts : ∀ x, (img'.getRefcount x : Int) = img.getRefcount x + change x) :
    PassStep img img' change := by
  obtain ⟨r, f, rfl⟩ := hsame
  exact ⟨⟨r, f, _, rfl⟩, fun _ _ => rfl, hcounts⟩

lemma PassStep.flag {next : Image} {entry : L2Entry}
    (hsame : ∃ r f, next = { img with refcounts := r, freeClusterIndex := f })
    (hcounts : ∀ x, (next.getRefcount x : Int) = img.getRefcount x + change x)
    (huse : L2Entry.SameUse (img.l2Tables t j) entry) :
    PassStep img (next.setL2Entry t j entry) change := by
  obtain ⟨r, f, rfl⟩ := hsame
  refine ⟨⟨r, f, _, rfl⟩, fun t' j' => ?_, hcounts⟩
  rw [l2Tables_setL2Entry]
  split
  next heq =>
    rwa [heq.1, heq.2]
  · rfl

/-- What the pass does to one L2 entry: the count of its clusters changes, and the flag is set if
the entry points at a cluster. -/
lemma updateL2Entry_cases (hrun : updateL2Entry addend t img j = some img') :
    ∃ next, (∃ r f, next = { img with refcounts := r, freeClusterIndex := f }) ∧
      (∀ x, (next.getRefcount x : Int) =
        img.getRefcount x + addend * img.entryRefs (img.l2Tables t j) x) ∧
      ((img.l2Tables t j).cluster = none ∧ img' = next ∨
        ∃ cluster, (img.l2Tables t j).cluster = some cluster ∧ img' = next.setL2Entry t j
            ((img.l2Tables t j).withCopied (decide (next.getRefcount cluster = 1)))) := by
  unfold updateL2Entry at hrun
  split at hrun
  next offset sectors hentry =>
    rw [hentry]
    split at hrun
    next hzero =>
      cases hrun
      exact ⟨img, ⟨_, _, rfl⟩, fun x => by rw [hzero, Int.zero_mul, add_zero], .inl ⟨rfl, rfl⟩⟩
    simp only at hrun
    split at hrun
    next next hok =>
      cases hrun
      exact ⟨_, (updateRefcount_counts hok).1, (updateRefcount_counts hok).2, .inl ⟨rfl, rfl⟩⟩
    · cases hrun
  -- a normal cluster, and one that is kept for a cluster of zeroes
  iterate 2
    next cluster copied hentry =>
      obtain ⟨⟨refcount, next⟩, hupdate, hrun⟩ := bind_eq_some_iff.mp hrun
      obtain ⟨hsame, hcounts, rfl⟩ := updateClusterRefcount_counts hupdate
      cases hrun
      rw [hentry]
      exact ⟨next, hsame, hcounts, .inr ⟨cluster, rfl, rfl⟩⟩
  all_goals
    rename_i hentry
    cases hrun
    rw [hentry]
    refine ⟨img, ⟨_, _, rfl⟩, fun x => ?_, .inl ⟨rfl, rfl⟩⟩
    rw [Image.entryRefs, ofNat_zero, Int.mul_zero, add_zero]

lemma sameUse_withCopied (e : L2Entry) (copied : Bool) :
    L2Entry.SameUse e (e.withCopied copied) := by
  cases e <;> rfl

lemma copied_withCopied (h : e.cluster = some c) (copied : Bool) :
    (e.withCopied copied).copied = copied := by
  cases e <;> first | rfl | cases h

lemma updateL2Entry_step (hrun : updateL2Entry addend t img j = some img') :
    PassStep img img' fun c => addend * img.entryRefs (img.l2Tables t j) c := by
  obtain ⟨next, hsame, hcounts, ⟨_, rfl⟩ | ⟨cluster, _, rfl⟩⟩ := updateL2Entry_cases hrun
  · exact .of_counts hsame hcounts
  · exact .flag hsame hcounts (sameUse_withCopied _ _)

lemma PassStep.of_eq (h : PassStep img img' change)
    (heq : ∀ c, change c = change' c) : PassStep img img' change' :=
  (funext heq : change = change') ▸ h

lemma updateL2Entries_step (hrun : (List.range n).foldlM (updateL2Entry addend t) img = some img') :
    PassStep img img' fun c =>
      addend * (∑ j ∈ range n, img.entryRefs (img.l2Tables t j) c : Nat) := by
  induction n generalizing img' with
  | zero =>
    cases hrun
    exact (PassStep.refl img).of_eq fun c => by simp
  | succ n ih =>
    obtain ⟨next, hfirst, hlast⟩ := OptionFold.foldlM_range_succ_eq_some.mp hrun
    have hstep := ih hfirst
    refine (hstep.trans (updateL2Entry_step hlast)).of_eq fun c => ?_
    rw [Pi.add_apply, hstep.entryRefs, sum_range_succ]
    push_cast
    ring

lemma updateL1Entry_step (hrun : updateL1Entry addend (l1, img) i = some (l1', img')) :
    PassStep img img' (fun c => addend * img.l1EntryRefs (l1.entries i) c) ∧
      (∀ i', (l1'.entries i').map (·.table) = (l1.entries i').map (·.table)) ∧
      (l1'.modified = false → l1'.entries = l1.entries ∧ l1.modified = false) := by
  unfold updateL1Entry at hrun
  simp only at hrun
  split at hrun
  next hnone =>
    cases hrun
    refine ⟨(PassStep.refl img).of_eq fun c => ?_, fun _ => rfl, fun hmod => ⟨rfl, hmod⟩⟩
    rw [hnone, Image.l1EntryRefs]
    simp
  rename_i old hold
  obtain ⟨next, hentries, hrun⟩ := bind_eq_some_iff.mp hrun
  obtain ⟨⟨refcount, last⟩, hupdate, hrun⟩ := bind_eq_some_iff.mp hrun
  obtain ⟨hsame, hcounts, _⟩ := updateClusterRefcount_counts hupdate
  cases hrun
  refine ⟨?_, fun i' => ?_, fun hmod => ?_⟩
  · refine ((updateL2Entries_step hentries).trans (.of_counts hsame hcounts)).of_eq fun c => ?_
    rw [hold, Image.l1EntryRefs, l2Refs, Pi.add_apply]
    push_cast
    ring
  · dsimp only
    by_cases hi : i' = i
    · rw [hi, update_self, hold]
      rfl
    · rw [update_of_ne hi]
  · simp only [Bool.or_eq_false_iff, decide_eq_false_iff_not, not_not] at hmod
    refine ⟨?_, hmod.1⟩
    rw [hmod.2, ← hold, update_eq_self]

lemma updateL1Entries_step
    (hrun : (List.range n).foldlM (updateL1Entry addend) (l1, img) = some (l1', img')) :
    PassStep img img' (fun c => addend * img.treeRefs ⟨l1.entries, n⟩ c) ∧
      (∀ i, (l1'.entries i).map (·.table) = (l1.entries i).map (·.table)) ∧
      (l1'.modified = false → l1'.entries = l1.entries ∧ l1.modified = false) := by
  induction n generalizing l1' img' with
  | zero =>
    cases hrun
    refine ⟨(PassStep.refl img).of_eq fun c => ?_, fun _ => rfl, fun hmod => ⟨rfl, hmod⟩⟩
    simp [treeRefs]
  | succ n ih =>
    obtain ⟨⟨l1'', next⟩, hfirst, hlast⟩ := OptionFold.foldlM_range_succ_eq_some.mp hrun
    obtain ⟨hstep, htables, hmods⟩ := ih hfirst
    obtain ⟨hstep', htables', hmods'⟩ := updateL1Entry_step hlast
    refine ⟨(hstep.trans hstep').of_eq fun c => ?_, fun i => (htables' i).trans (htables i), ?_⟩
    · have hentry : img.l1EntryRefs (l1''.entries n) c = img.l1EntryRefs (l1.entries n) c :=
        l1EntryRefs_of_table (htables n) c
      rw [Pi.add_apply, hstep.l1EntryRefs, hentry, treeRefs, treeRefs]
      simp only [sum_range_succ]
      push_cast
      ring
    · intro hmod
      obtain ⟨heq', hmod'⟩ := hmods' hmod
      obtain ⟨heq, hmod⟩ := hmods hmod'
      exact ⟨heq'.trans heq, hmod⟩

/-- The flag is right for the count, and stays right if the count grows by multiples of the
addend. -/
def FlagOk (addend : Nat) (copied : Bool) (refcount : Nat) : Prop :=
  (copied = true ↔ refcount = 1) ∧ addend < refcount

lemma FlagOk.grow {addend k refcount' : Nat} {copied : Bool} (h : FlagOk addend copied refcount)
    (hgrow : (refcount' : Int) = refcount + (addend : Int) * k) :
    FlagOk addend copied refcount' := by
  obtain ⟨hflag, hlt⟩ := h
  cases addend with
  | zero =>
    have heq : refcount' = refcount := by
      rw [ofNat_zero, Int.zero_mul, add_zero] at hgrow
      omega
    rw [heq]
    exact ⟨hflag, hlt⟩
  | succ addend =>
    have hle : refcount ≤ refcount' := by
      have hpos : 0 ≤ ((addend + 1 : Nat) : Int) * k :=
        Int.mul_nonneg (Int.natCast_nonneg _) (Int.natCast_nonneg _)
      omega
    refine ⟨hflag.trans ?_, by omega⟩
    omega

lemma flagOk_new {addend refcount' : Nat} (hcounted : 1 ≤ refcount)
    (hgrow : (refcount' : Int) = refcount + addend) :
    FlagOk addend (decide (refcount' = 1)) refcount' :=
  ⟨decide_eq_true_iff, by omega⟩

def EntryOk (addend : Nat) (img : Image) (t j : Nat) : Prop :=
  ∀ c, (img.l2Tables t j).cluster = some c →
    FlagOk addend (img.l2Tables t j).copied (img.getRefcount c)

lemma updateL2Entry_flags {addend : Nat} (hrun : updateL2Entry addend t img j = some img')
    (hcounted : ∀ c, (img.l2Tables t j).cluster = some c → 1 ≤ img.getRefcount c) :
    EntryOk addend img' t j ∧ ∀ t' j', EntryOk addend img t' j' → EntryOk addend img' t' j' := by
  obtain ⟨next, ⟨r, f, rfl⟩, hcounts, hcases⟩ := updateL2Entry_cases hrun
  have hgrow : ∀ {c copied}, FlagOk addend copied (img.getRefcount c) →
      FlagOk addend copied (getRefcount { img with refcounts := r, freeClusterIndex := f } c) :=
    fun hflag => hflag.grow (hcounts _)
  rcases hcases with ⟨hnone, rfl⟩ | ⟨cluster, hsome, rfl⟩
  · refine ⟨fun c hc => ?_, fun t' j' hok c hc => hgrow (hok c hc)⟩
    exact absurd (hnone.symm.trans hc) (by simp)
  have hself : EntryOk addend (setL2Entry { img with refcounts := r, freeClusterIndex := f } t j
      ((img.l2Tables t j).withCopied (decide
        (getRefcount { img with refcounts := r, freeClusterIndex := f } cluster = 1)))) t j := by
    intro c hc
    rw [l2Tables_setL2Entry, if_pos ⟨rfl, rfl⟩] at hc ⊢
    rw [(sameUse_withCopied _ _).cluster, hsome] at hc
    cases hc
    rw [copied_withCopied hsome]
    refine flagOk_new (hcounted cluster hsome) ((hcounts cluster).trans ?_)
    rw [entryRefs_of_cluster hsome, rangeRefs_self one_pos, Int.natCast_one, mul_one]
  refine ⟨hself, fun t' j' hok => ?_⟩
  by_cases hsame : t' = t ∧ j' = j
  · rwa [hsame.1, hsame.2]
  · intro c hc
    rw [l2Tables_setL2Entry, if_neg hsame] at hc ⊢
    exact hgrow (hok c hc)

lemma PassStep.le_getRefcount {addend : Nat} {k : Nat → Nat}
    (h : PassStep img img' fun c => (addend : Int) * k c) (c : Nat) :
    img.getRefcount c ≤ img'.getRefcount c := by
  have hcounts := h.counts c
  have hpos : 0 ≤ (addend : Int) * k c :=
    Int.mul_nonneg (Int.natCast_nonneg _) (Int.natCast_nonneg _)
  omega

lemma updateL2Entries_flags {addend : Nat}
    (hrun : (List.range n).foldlM (updateL2Entry addend t) img = some img')
    (hcounted : ∀ j < n, ∀ c, (img.l2Tables t j).cluster = some c → 1 ≤ img.getRefcount c) :
    (∀ j < n, EntryOk addend img' t j) ∧
      ∀ t' j', EntryOk addend img t' j' → EntryOk addend img' t' j' := by
  induction n generalizing img' with
  | zero =>
    cases hrun
    exact ⟨fun j hj => absurd hj (not_lt_zero j), fun _ _ hok => hok⟩
  | succ n ih =>
    obtain ⟨next, hfirst, hlast⟩ := OptionFold.foldlM_range_succ_eq_some.mp hrun
    obtain ⟨hdone, hkeep⟩ := ih hfirst fun j hj => hcounted j (lt_succ_of_lt hj)
    have hstep := updateL2Entries_step hfirst
    obtain ⟨hnew, hkeep'⟩ := updateL2Entry_flags hlast fun c hc => by
      rw [(hstep.entries t n).cluster] at hc
      exact (hcounted n (lt_succ_self n) c hc).trans (hstep.le_getRefcount c)
    refine ⟨fun j hj => ?_, fun t' j' hok => hkeep' t' j' (hkeep t' j' hok)⟩
    rcases Nat.lt_succ_iff_lt_or_eq.mp hj with hj | rfl
    · exact hkeep' t j (hdone j hj)
    · exact hnew

def L1EntryOk (addend : Nat) (img : Image) (entries : Nat → Option L1Entry) (i : Nat) : Prop :=
  ∀ e, entries i = some e → FlagOk addend e.copied (img.getRefcount e.table) ∧
    ∀ j < img.l2Size, EntryOk addend img e.table j

lemma updateL1Entry_flags {addend : Nat}
    (hrun : updateL1Entry addend (l1, img) i = some (l1', img'))
    (hcounted : ∀ e, l1.entries i = some e → 1 ≤ img.getRefcount e.table ∧
      ∀ j < img.l2Size, ∀ c, (img.l2Tables e.table j).cluster = some c → 1 ≤ img.getRefcount c) :
    L1EntryOk addend img' l1'.entries i ∧
      ∀ i', L1EntryOk addend img l1.entries i' → L1EntryOk addend img' l1'.entries i' := by
  unfold updateL1Entry at hrun
  simp only at hrun
  split at hrun
  next hnone =>
    cases hrun
    exact ⟨fun e he => absurd (hnone.symm.trans he) (by simp), fun _ hok => hok⟩
  rename_i old hold
  obtain ⟨next, hentries, hrun⟩ := bind_eq_some_iff.mp hrun
  obtain ⟨⟨refcount, last⟩, hupdate, hrun⟩ := bind_eq_some_iff.mp hrun
  obtain ⟨⟨r, f, rfl⟩, hcounts, rfl⟩ := updateClusterRefcount_counts hupdate
  obtain ⟨htable, hclusters⟩ := hcounted old hold
  obtain ⟨hdone, hkeep⟩ := updateL2Entries_flags hentries hclusters
  have hstep := updateL2Entries_step hentries
  have hgrow : ∀ {c copied}, FlagOk addend copied (next.getRefcount c) → FlagOk addend copied
      (getRefcount { next with refcounts := r, freeClusterIndex := f } c) :=
    fun hflag => hflag.grow (hcounts _)
  cases hrun
  have hself : L1EntryOk addend { next with refcounts := r, freeClusterIndex := f }
      (update l1.entries i (some ⟨old.table, decide (getRefcount
        { next with refcounts := r, freeClusterIndex := f } old.table = 1)⟩)) i := by
    intro e he
    rw [update_self] at he
    cases he
    refine ⟨?_, fun j hj c hc => hgrow (hdone j (by rw [← hstep.l2Size]; exact hj) c hc)⟩
    refine flagOk_new (htable.trans (hstep.le_getRefcount _)) ((hcounts _).trans ?_)
    rw [rangeRefs_self one_pos, Int.natCast_one, Int.mul_one]
  refine ⟨hself, fun i' hok => ?_⟩
  by_cases hi : i' = i
  · rwa [hi]
  intro e he
  dsimp only at he
  rw [update_of_ne hi] at he
  obtain ⟨hflag, hflags⟩ := hok e he
  exact ⟨hgrow (hflag.grow (hstep.counts _)), fun j hj c hc =>
    hgrow (hkeep e.table j (hflags j (by rw [← hstep.l2Size]; exact hj)) c hc)⟩

lemma updateL1Entries_flags {addend : Nat}
    (hrun : (List.range n).foldlM (updateL1Entry addend) (l1, img) = some (l1', img'))
    (hcounted : ∀ c, img.Points ⟨l1.entries, n⟩ c → 1 ≤ img.getRefcount c) :
    ∀ i < n, L1EntryOk addend img' l1'.entries i := by
  induction n generalizing l1' img' with
  | zero => exact fun i hi => absurd hi (Nat.not_lt_zero i)
  | succ n ih =>
    obtain ⟨⟨l1'', next⟩, hfirst, hlast⟩ := OptionFold.foldlM_range_succ_eq_some.mp hrun
    have hdone := ih hfirst fun c ⟨i, hi, hc⟩ => hcounted c ⟨i, Nat.lt_succ_of_lt hi, hc⟩
    obtain ⟨hstep, htables, _⟩ := updateL1Entries_step hfirst
    have hlow := hstep.le_getRefcount
    obtain ⟨hnew, hkeep⟩ := updateL1Entry_flags hlast fun e he => by
      have htable := htables n
      rw [he, map_some] at htable
      obtain ⟨e', he', htable'⟩ := map_eq_some_iff.mp htable.symm
      rw [← htable']
      refine ⟨le_trans (hcounted _ ⟨n, lt_succ_self n, e', he', .inl rfl⟩) (hlow _), ?_⟩
      intro j hj c hc
      rw [hstep.l2Size] at hj
      rw [(hstep.entries _ j).cluster] at hc
      exact (hcounted c ⟨n, lt_succ_self n, e', he', .inr ⟨j, hj, hc⟩⟩).trans (hlow c)
    intro i hi
    rcases Nat.lt_succ_iff_lt_or_eq.mp hi with hi | rfl
    · exact hkeep i (hdone i hi)
    · exact hnew

/-- Two images differ in counts and in `QCOW_OFLAG_COPIED`. The file may hold another active L1
table. -/
structure Reflagged (img img' : Image) : Prop where
  clusterBits : img'.clusterBits = img.clusterBits
  refcountTableOffset : img'.refcountTableOffset = img.refcountTableOffset
  refcountTable : img'.refcountTable = img.refcountTable
  l1TableOffset : img'.l1TableOffset = img.l1TableOffset
  l1Size : img'.l1Size = img.l1Size
  snapshotsOffset : img'.snapshotsOffset = img.snapshotsOffset
  snapshotsSize : img'.snapshotsSize = img.snapshotsSize
  snapshots : img'.snapshots = img.snapshots
  l1Table : ∀ i, (img'.l1Table i).map (·.table) = (img.l1Table i).map (·.table)
  l1Disk : ∀ offset, (0 < img.l1Size → offset ≠ img.l1TableOffset) → ∀ i,
    (img'.l1Disk offset i).map (·.table) = (img.l1Disk offset i).map (·.table)
  l2Tables : ∀ t j, L2Entry.SameUse (img.l2Tables t j) (img'.l2Tables t j)

section
variable (h : Reflagged img img')
include h

lemma Reflagged.metaRefs (c : Nat) : img'.metaRefs c = img.metaRefs c := by
  simp only [Image.metaRefs, blockRefs, l1Clusters, sizeToClusters, clusterSize, h.clusterBits,
    h.refcountTableOffset, h.refcountTable, h.l1TableOffset, h.l1Size, h.snapshotsOffset,
    h.snapshotsSize, h.snapshots]

lemma Reflagged.sameTree {l1 l1' : L1Table} (hsize : l1'.size = l1.size)
    (htables : ∀ i < l1.size, (l1'.entries i).map (·.table) = (l1.entries i).map (·.table)) :
    SameTree img l1 img' l1' := by
  have hl2Size : img'.l2Size = img.l2Size := by rw [l2Size, l2Size, h.clusterBits]
  constructor
  · intro c
    rw [treeRefs, treeRefs, hsize]
    refine sum_congr rfl fun i hi => ?_
    rw [l1EntryRefs_of_table (htables i (mem_range.mp hi)) c]
    cases l1.entries i with
    | none => rfl
    | some e =>
      rw [l1EntryRefs, l1EntryRefs, l2Refs, l2Refs, hl2Size]
      refine congrArg _ (sum_congr rfl fun j _ => ?_)
      rw [entryRefs_congr h.clusterBits, SameUse.entryRefs (h.l2Tables e.table j)]
  · rintro c ⟨i, hi, e', he', hc⟩
    rw [hsize] at hi
    have htable := htables i hi
    rw [he', map_some] at htable
    obtain ⟨e, he, htable⟩ := map_eq_some_iff.mp htable.symm
    refine ⟨i, hi, e, he, ?_⟩
    rw [htable]
    refine hc.imp id ?_
    rintro ⟨j, hj, hc⟩
    rw [(h.l2Tables e'.table j).cluster] at hc
    exact ⟨j, hl2Size ▸ hj, hc⟩

lemma Reflagged.active : SameTree img img.activeL1 img' img'.activeL1 :=
  h.sameTree h.l1Size fun i _ => h.l1Table i

lemma Reflagged.snapshot {sn : Snapshot}
    (hsn : 0 < sn.l1Size → 0 < img.l1Size → sn.l1TableOffset ≠ img.l1TableOffset) :
    SameTree img (img.snapshotL1 sn) img' (img'.snapshotL1 sn) :=
  h.sameTree rfl fun i hi => h.l1Disk sn.l1TableOffset (hsn ((zero_le i).trans_lt hi)) i
end

def passL1 (img : Image) (l1TableOffset l1Size : Nat) : L1Table :=
  if l1TableOffset = img.l1TableOffset then img.activeL1 else ⟨img.l1Disk l1TableOffset, l1Size⟩

variable (hrun : img.updateSnapshotRefcount offset size addend = some img')

include hrun in
lemma snapshotPass_eq : (img.passL1 offset size).size = size ∧ ∃ l1 next,
      (List.range size).foldlM (updateL1Entry addend)
        (⟨(img.passL1 offset size).entries, false⟩, img) = some (l1, next) ∧
      img' = writeL1Copy
        (if offset = img.l1TableOffset then { next with l1Table := l1.entries } else next)
        offset size addend l1 := by
  unfold updateSnapshotRefcount at hrun
  unfold passL1
  by_cases hactive : offset = img.l1TableOffset
  · rw [if_pos hactive] at hrun ⊢
    by_cases hsize : size ≠ img.l1Size
    · rw [if_pos hsize] at hrun
      cases hrun
    rw [if_neg hsize] at hrun
    obtain ⟨⟨l1, next⟩, hpass, hrun⟩ := bind_eq_some_iff.mp hrun
    cases hrun
    refine ⟨(not_not.mp hsize).symm, l1, next, hpass, ?_⟩
    rw [if_pos hactive]
  · rw [if_neg hactive] at hrun ⊢
    obtain ⟨⟨l1, next⟩, hpass, hrun⟩ := bind_eq_some_iff.mp hrun
    cases hrun
    refine ⟨rfl, l1, next, hpass, ?_⟩
    rw [if_neg hactive]

lemma writeL1Table_eq (img : Image) (offset size : Nat) (entries : Nat → Option L1Entry) :
    ∃ disk, img.writeL1Table offset size entries = { img with l1Disk := disk } ∧ ∀ o i,
      disk o i = if o = offset ∧ i < size then entries i else img.l1Disk o i := by
  refine ⟨_, rfl, fun o i => ?_⟩
  by_cases ho : o = offset
  · subst ho
    rw [update_self]
    by_cases hi : i < size
    · rw [if_pos hi, if_pos ⟨rfl, hi⟩]
    · rw [if_neg hi, if_neg fun h => hi h.2]
  · rw [update_of_ne ho, if_neg fun h => ho h.1]

lemma writeL1Copy_eq (img : Image) (offset size : Nat) (addend : Int) (l1 : L1Copy) :
    ∃ disk, img.writeL1Copy offset size addend l1 = { img with l1Disk := disk } ∧ ∀ o i,
      disk o i = img.l1Disk o i ∨ o = offset ∧ i < size ∧ disk o i = l1.entries i := by
  unfold writeL1Copy
  split
  · obtain ⟨disk, heq, hdisk⟩ := writeL1Table_eq img offset size l1.entries
    refine ⟨disk, heq, fun o i => ?_⟩
    by_cases hi : o = offset ∧ i < size
    · exact .inr ⟨hi.1, hi.2, (hdisk o i).trans (if_pos hi)⟩
    · exact .inl ((hdisk o i).trans (if_neg hi))
  · exact ⟨_, rfl, fun _ _ => .inl rfl⟩

include hrun in
lemma snapshotPass_counts : Reflagged img img' ∧ ∀ c, (img'.getRefcount c : Int) =
      img.getRefcount c + addend * img.treeRefs (img.passL1 offset size) c := by
  obtain ⟨hsize, l1, next, hpass, rfl⟩ := snapshotPass_eq hrun
  obtain ⟨⟨⟨r, f, l2, rfl⟩, hentries, hcounts⟩, htables, _⟩ := updateL1Entries_step hpass
  have hl1 : (⟨(img.passL1 offset size).entries, size⟩ : L1Table) = img.passL1 offset size :=
    congrArg (L1Table.mk _) hsize.symm
  simp only [hl1] at hcounts
  unfold passL1 at htables hsize
  by_cases hactive : offset = img.l1TableOffset
  · simp only [if_pos hactive] at htables hsize ⊢
    obtain ⟨disk, heq, hdisk⟩ := writeL1Copy_eq
      { img with refcounts := r, freeClusterIndex := f, l2Tables := l2, l1Table := l1.entries }
      offset size addend l1
    rw [heq]
    refine ⟨⟨rfl, rfl, rfl, rfl, rfl, rfl, rfl, rfl, htables, fun o ho i => ?_, hentries⟩, hcounts⟩
    rcases hdisk o i with hkeep | ⟨rfl, hi, _⟩
    · exact congrArg _ hkeep
    · rw [← hsize] at hi
      exact absurd hactive (ho ((Nat.zero_le i).trans_lt hi))
  · simp only [if_neg hactive] at htables ⊢
    obtain ⟨disk, heq, hdisk⟩ := writeL1Copy_eq
      { img with refcounts := r, freeClusterIndex := f, l2Tables := l2 } offset size addend l1
    rw [heq]
    refine ⟨⟨rfl, rfl, rfl, rfl, rfl, rfl, rfl, rfl, fun _ => rfl, fun o _ i => ?_, hentries⟩,
      hcounts⟩
    rcases hdisk o i with hkeep | ⟨rfl, _, hwritten⟩
    · exact congrArg _ hkeep
    · rw [← htables i]
      exact congrArg _ hwritten

lemma writeL1Copy_l1Disk {o : Nat} (ho : addend < 0 ∨ o ≠ offset) :
    (img.writeL1Copy offset size addend l1).l1Disk o = img.l1Disk o := by
  unfold writeL1Copy
  split
  next hwrite =>
    rcases ho with hneg | hne
    · exact absurd hwrite.1 (Int.not_le.mpr hneg)
    · exact update_of_ne hne _ _
  · rfl

include hrun in
/-- The L1 tables that the pass leaves as they are: all but the one that it goes over, and that one
too if the addend is negative. -/
lemma snapshotPass_frame : (offset ≠ img.l1TableOffset → img'.l1Table = img.l1Table) ∧
      ∀ o, addend < 0 ∨ o ≠ offset → img'.l1Disk o = img.l1Disk o := by
  obtain ⟨_, l1, next, hpass, rfl⟩ := snapshotPass_eq hrun
  obtain ⟨⟨⟨r, f, l2, rfl⟩, _, _⟩, _, _⟩ := updateL1Entries_step hpass
  constructor
  · intro hoffset
    rw [if_neg hoffset]
    obtain ⟨disk, heq, _⟩ := writeL1Copy_eq
      { img with refcounts := r, freeClusterIndex := f, l2Tables := l2 } offset size addend l1
    rw [heq]
  · intro o ho
    rw [writeL1Copy_l1Disk ho]
    split <;> rfl

lemma writeL1Copy_synced (haddend : 0 ≤ addend) (htable : img.l1Table = l1.entries)
    (hsynced : l1.modified = false → img.Synced) :
    (img.writeL1Copy img.l1TableOffset img.l1Size addend l1).Synced := by
  unfold writeL1Copy
  cases hmodified : l1.modified with
  | false =>
    rw [if_neg (by simp)]
    exact hsynced hmodified
  | true =>
    rw [if_pos ⟨haddend, rfl⟩]
    obtain ⟨disk, heq, hdisk⟩ := writeL1Table_eq img img.l1TableOffset img.l1Size l1.entries
    rw [heq]
    intro i hi
    exact (hdisk _ _).trans ((if_pos ⟨rfl, hi⟩).trans (congrFun htable.symm i))

/-- After a pass over the active L1 table, with an addend that is not negative, the flags are right
and the table is in the file. -/
lemma snapshotPass_copied (addend : Nat)
    (hrun : img.updateSnapshotRefcount img.l1TableOffset img.l1Size addend = some img')
    (hcounted : ∀ c, img.Points img.activeL1 c → 1 ≤ img.getRefcount c) (hsynced : img.Synced) :
    img'.Copied ∧ img'.Synced := by
  obtain ⟨_, l1, next, hpass, rfl⟩ := snapshotPass_eq hrun
  unfold passL1 at hpass
  rw [if_pos rfl] at hpass ⊢
  have hflags := updateL1Entries_flags hpass hcounted
  obtain ⟨⟨⟨r, f, l2, rfl⟩, _, _⟩, _, hmodified⟩ := updateL1Entries_step hpass
  constructor
  · obtain ⟨disk, heq, _⟩ := writeL1Copy_eq
      { img with refcounts := r, freeClusterIndex := f, l2Tables := l2, l1Table := l1.entries }
      img.l1TableOffset img.l1Size addend l1
    rw [heq]
    intro i hi e he
    obtain ⟨hflag, hentry⟩ := hflags i hi e he
    exact ⟨hflag.1, fun j hj c hc => (hentry j hj c hc).1⟩
  · refine writeL1Copy_synced (natCast_nonneg addend) rfl fun hunmodified i hi => ?_
    rw [(hmodified hunmodified).1]
    exact hsynced i hi

end Image

end QemuVmi.Qcow2
