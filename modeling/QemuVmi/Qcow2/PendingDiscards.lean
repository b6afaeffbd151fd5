import Mathlib

/-!
# Pending discards

`update_refcount_discard` and `qcow2_process_discards` of `block/qcow2-refcount.c`. A range that is
freed extends the first pending region that it touches, and this region then takes in all others
that it touches. `none` stands for a failed assertion. Ranges end below `2 ^ 64`, so no sum wraps.

Results:
1. `discards_exact`: for disjoint ranges the assertions hold, and the pending regions are what has
   been freed, with gaps between them.
-/

namespace QemuVmi.Qcow2

open List

/-- `Qcow2DiscardRegion`, and a range of clusters that is freed. -/
structure DiscardRegion where
  offset : Nat
  bytes : Nat
  pos : 0 < bytes

namespace DiscardRegion

def stop (d : DiscardRegion) : Nat := d.offset + d.bytes

/-- `new_start` and `new_end`. -/
def hull (r d : DiscardRegion) : DiscardRegion :=
  ⟨min r.offset d.offset, max r.stop d.stop - min r.offset d.offset, by
    have := r.pos
    unfold stop
    omega⟩

/-- The first loop of `update_refcount_discard`: the regions before the one that takes in the range,
this one, and those behind it. It is a new one at the end if there is none. -/
def joinRange (r : DiscardRegion) :
    List DiscardRegion → Option (List DiscardRegion × DiscardRegion × List DiscardRegion)
  | [] => some ([], r, [])
  | d :: ds =>
    if (hull r d).bytes ≤ r.bytes + d.bytes then
      if d.bytes + r.bytes = (hull r d).bytes then some ([], hull r d, ds) else none
    else (joinRange r ds).map fun (before, found, behind) => (d :: before, found, behind)

/-- The second loop, over the regions on one side of `d`. -/
def mergeAdjacent (d : DiscardRegion) :
    List DiscardRegion → Option (DiscardRegion × List DiscardRegion)
  | [] => some (d, [])
  | p :: ps =>
    if p.offset > d.stop ∨ d.offset > p.stop then
      (mergeAdjacent d ps).map fun (d, ps) => (d, p :: ps)
    else if p.offset = d.stop ∨ d.offset = p.stop then
      mergeAdjacent ⟨min d.offset p.offset, d.bytes + p.bytes, Nat.add_pos_left d.pos _⟩ ps
    else none

def updateRefcountDiscard (ds : List DiscardRegion) (r : DiscardRegion) :
    Option (List DiscardRegion) := do
  let (before, d, behind) ← joinRange r ds
  let (d, before) ← mergeAdjacent d before
  let (d, behind) ← mergeAdjacent d behind
  return before ++ d :: behind

/-- The sectors that are discarded, and the regions that are left. -/
def processDiscards (ret : Int) : List DiscardRegion → List (Nat × Nat) × List DiscardRegion
  | [] => ([], [])
  | d :: ds =>
    let (sectors, left) := processDiscards ret ds
    (if ret ≥ 0 then (d.offset >>> 9, d.bytes >>> 9) :: sectors else sectors, left)

/-- One ends at least `m` bytes before the other starts. -/
def Apart (m : Nat) (d e : DiscardRegion) : Prop := d.stop + m ≤ e.offset ∨ e.stop + m ≤ d.offset

/-- The same regions lie apart from both lists, so their unions are the same. -/
def SameUnion (l l' : List DiscardRegion) : Prop :=
  ∀ m q, (∀ p ∈ l, Apart m q p) ↔ ∀ p ∈ l', Apart m q p

variable {d d' e p q r : DiscardRegion} {m : Nat} {l l' ds ranges : List DiscardRegion}

lemma Apart.zero (h : Apart 1 p q) : Apart 0 q p := by
  unfold Apart at *
  omega

/-- `e` is made of two regions that touch. -/
def Joins (d p e : DiscardRegion) : Prop :=
  ∀ m q, Apart m q e ↔ Apart m q d ∧ Apart m q p

lemma joins_of_touch (htouch : p.offset = d.stop ∨ d.offset = p.stop)
    (hstart : e.offset = min d.offset p.offset) (hbytes : e.bytes = d.bytes + p.bytes) :
    Joins d p e := by
  intro m q
  have := q.pos
  unfold Apart stop at *
  omega

lemma Joins.sameUnion (h : Joins d p e) (hsame : SameUnion (e :: l) l') :
    SameUnion (d :: p :: l) l' := by
  intro m q
  rw [← hsame m q, forall_mem_cons, forall_mem_cons, forall_mem_cons, h m q, and_assoc]

lemma SameUnion.apart (h : SameUnion (d :: l) (d' :: l')) (hd : Apart m p d)
    (hl : ∀ e ∈ l, Apart m p e) : Apart m p d' :=
  (forall_mem_cons.mp ((h m p).mp (forall_mem_cons.mpr ⟨hd, hl⟩))).1

lemma SameUnion.cons (h : SameUnion (d :: l) (d' :: l')) (p : DiscardRegion) :
    SameUnion (d :: p :: l) (d' :: p :: l') := by
  intro m q
  have hsame := h m q
  simp only [forall_mem_cons] at hsame ⊢
  rw [and_left_comm, hsame, and_left_comm]

lemma mergeAdjacent_spec (hl : l.Pairwise (Apart 1)) (hd : ∀ p ∈ l, Apart 0 p d) :
    ∃ d' l', mergeAdjacent d l = some (d', l') ∧ l'.Sublist l ∧ (∀ p ∈ l', Apart 1 p d') ∧
      SameUnion (d :: l) (d' :: l') := by
  induction l generalizing d with
  | nil => exact ⟨d, [], rfl, .refl _, nofun, fun _ _ => Iff.rfl⟩
  | cons p ps ih =>
    obtain ⟨hp, hps⟩ := pairwise_cons.mp hl
    obtain ⟨hpd, hd⟩ := forall_mem_cons.mp hd
    rw [mergeAdjacent]
    split
    next hfar =>
      obtain ⟨d', l', hrun, hsub, hgap, hsame⟩ := ih hps hd
      rw [hrun]
      have hpd' : Apart 1 p d := hfar.symm
      exact ⟨d', p :: l', rfl, hsub.cons_cons p, forall_mem_cons.mpr ⟨hsame.apart hpd' hp, hgap⟩,
        hsame.cons p⟩
    next hnear =>
      have htouch : p.offset = d.stop ∨ d.offset = p.stop := by
        unfold Apart at hpd
        omega
      have hjoins := joins_of_touch (e := ⟨_, _, Nat.add_pos_left d.pos _⟩) htouch rfl rfl
      rw [if_pos htouch]
      obtain ⟨d', l', hrun, hsub, hgap, hsame⟩ :=
        ih hps fun e he => (hjoins 0 e).mpr ⟨hd e he, (hp e he).zero⟩
      exact ⟨d', l', hrun, hsub.cons p, hgap, hjoins.sameUnion hsame⟩

lemma joinRange_spec (hl : ds.Pairwise (Apart 1)) (hr : ∀ p ∈ ds, Apart 0 p r) :
    ∃ before d behind, joinRange r ds = some (before, d, behind) ∧ (before ++ behind).Sublist ds ∧
      (∀ p ∈ before ++ behind, Apart 0 p d) ∧ SameUnion (r :: ds) (d :: (before ++ behind)) := by
  induction ds with
  | nil => exact ⟨[], r, [], rfl, .refl _, nofun, fun _ _ => Iff.rfl⟩
  | cons d ds ih =>
    obtain ⟨hd, hds⟩ := pairwise_cons.mp hl
    obtain ⟨hdr, hr⟩ := forall_mem_cons.mp hr
    rw [joinRange]
    split
    next hnear =>
      have htouch : (d.offset = r.stop ∨ r.offset = d.stop) ∧
          (hull r d).bytes = r.bytes + d.bytes := by
        unfold Apart at hdr
        unfold hull stop at *
        dsimp only at *
        omega
      have hjoins := joins_of_touch htouch.1 (e := hull r d) rfl htouch.2
      rw [if_pos (by omega)]
      exact ⟨[], _, ds, rfl, ds.sublist_cons_self d,
        fun e he => (hjoins 0 e).mpr ⟨hr e he, (hd e he).zero⟩,
        hjoins.sameUnion fun _ _ => Iff.rfl⟩
    next hfar =>
      obtain ⟨before, e, behind, hrun, hsub, hgap, hsame⟩ := ih hds hr
      rw [hrun]
      exact ⟨d :: before, e, behind, rfl, hsub.cons_cons d, forall_mem_cons.mpr
        ⟨hsame.apart hdr fun p hp => (hd p hp).zero.symm, hgap⟩, hsame.cons d⟩

lemma updateRefcountDiscard_spec (hl : ds.Pairwise (Apart 1)) (hr : ∀ p ∈ ds, Apart 0 p r) :
    ∃ ds', updateRefcountDiscard ds r = some ds' ∧ ds'.Pairwise (Apart 1) ∧
      SameUnion (r :: ds) ds' := by
  obtain ⟨before, d, behind, hjoin, hsub, hgap, hsame⟩ := joinRange_spec hl hr
  obtain ⟨hbefore, hbehind, hbetween⟩ := pairwise_append.mp (hl.sublist hsub)
  obtain ⟨hbgap, hfgap⟩ := forall_mem_append.mp hgap
  obtain ⟨d₁, before', hmerge, hsub₁, hgap₁, hsame₁⟩ := mergeAdjacent_spec hbefore hbgap
  obtain ⟨d₂, behind', hmerge', hsub₂, hgap₂, hsame₂⟩ := mergeAdjacent_spec hbehind fun p hp =>
    hsame₁.apart (hfgap p hp) fun e he => (hbetween e he p hp).zero
  refine ⟨before' ++ d₂ :: behind', ?_, ?_, fun m q => ?_⟩
  · simp [updateRefcountDiscard, hjoin, hmerge, hmerge']
  · rw [pairwise_append, pairwise_cons]
    refine ⟨hbefore.sublist hsub₁, ⟨fun p hp => (hgap₂ p hp).symm, hbehind.sublist hsub₂⟩,
      fun p hp => forall_mem_cons.mpr ⟨?_, fun e he => ?_⟩⟩
    · exact hsame₂.apart (hgap₁ p hp) (hbetween p (hsub₁.subset hp))
    · exact hbetween p (hsub₁.subset hp) e (hsub₂.subset he)
  · have h₁ := hsame₁ m q
    have h₂ := hsame₂ m q
    rw [forall_mem_cons, forall_mem_cons] at h₁ h₂
    rw [hsame m q, forall_mem_cons, forall_mem_append, forall_mem_append, forall_mem_cons, ← h₂,
      ← and_assoc, h₁, and_assoc, and_left_comm]

lemma foldlM_updateRefcountDiscard (h : ranges.Pairwise (Apart 0)) :
    ∃ ds, ranges.foldlM updateRefcountDiscard [] = some ds ∧ ds.Pairwise (Apart 1) ∧
      SameUnion ranges ds := by
  induction ranges using List.reverseRecOn with
  | nil => exact ⟨[], rfl, .nil, fun _ _ => Iff.rfl⟩
  | append_singleton ranges r ih =>
    obtain ⟨hranges, -, hr⟩ := pairwise_append.mp h
    obtain ⟨ds, hrun, hgaps, hsame⟩ := ih hranges
    have hr := (hsame 0 r).mp fun p hp => (hr p hp r mem_cons_self).symm
    obtain ⟨ds', hupdate, hgaps', hsame'⟩ :=
      updateRefcountDiscard_spec hgaps fun p hp => (hr p hp).symm
    refine ⟨ds', ?_, hgaps', fun m q => ?_⟩
    · rw [foldlM_append, hrun]
      exact (bind_pure _).trans hupdate
    · rw [← hsame' m q, forall_mem_cons, ← hsame m q, forall_mem_append, forall_mem_singleton,
        and_comm]

lemma processDiscards_left (ret : Int) : (processDiscards ret ds).2 = [] := by
  induction ds with
  | nil => rfl
  | cons d ds ih => exact ih

/-- Any calls with disjoint ranges since the pending discards were last processed. -/
theorem discards_exact (ret : Int) (ds : List DiscardRegion)
    (hdisjoint : ranges.Pairwise fun r s => r.stop ≤ s.offset ∨ s.stop ≤ r.offset) :
    ∃ pending, ranges.foldlM updateRefcountDiscard (processDiscards ret ds).2 = some pending ∧
      (pending.Pairwise fun d e => d.stop < e.offset ∨ e.stop < d.offset) ∧
      ∀ x, (∃ d ∈ pending, d.offset ≤ x ∧ x < d.stop) ↔
        ∃ r ∈ ranges, r.offset ≤ x ∧ x < r.stop := by
  rw [processDiscards_left]
  obtain ⟨pending, hrun, hgaps, hsame⟩ := foldlM_updateRefcountDiscard hdisjoint
  refine ⟨pending, hrun, hgaps, fun x => ?_⟩
  have hout : ∀ d, Apart 0 ⟨x, 1, Nat.one_pos⟩ d ↔ ¬ (d.offset ≤ x ∧ x < d.stop) := by
    intro d
    unfold Apart stop
    dsimp only
    omega
  have hx := hsame 0 ⟨x, 1, Nat.one_pos⟩
  simp only [hout] at hx
  simpa only [not_forall, not_not, exists_prop] using (not_congr hx).symm

/-- The third range bridges the other two. -/
theorem discards_exact_bridge :
    ∃ pending, [(⟨0, 512, by decide⟩ : DiscardRegion), ⟨1024, 512, by decide⟩,
        ⟨512, 512, by decide⟩].foldlM updateRefcountDiscard (processDiscards 0 []).2 = some pending ∧
      pending.Pairwise fun d e => d.stop < e.offset ∨ e.stop < d.offset :=
  (discards_exact 0 [] (by simp [stop])).imp fun _ h => ⟨h.1, h.2.1⟩

end DiscardRegion

end QemuVmi.Qcow2
