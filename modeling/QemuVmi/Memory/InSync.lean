import QemuVmi.Lib.OptionFold
import QemuVmi.Memory.Transaction

/-!
# The current maps are in sync

`SameTopology` is what the conditions on `memory_region_update_pending` stand for: two
hierarchies that differ only in regions that are not rendered have the same topology.
-/

namespace QemuVmi.Memory

open OptionFold List Option Function

/-- What `generate_memory_topology` returns. -/
def Topology (regions : Regions) (root : Option Rid) (view : FlatView) : Prop :=
  ∃ n, ∀ fuel, n ≤ fuel → generateMemoryTopology regions fuel root = some view

def MemoryRegion.attributes (m : MemoryRegion) :
    Nat × Bool × Bool × Bool × BitVec 8 × Option Rid × HwAddr :=
  (m.size, m.terminates, m.romdMode, m.readonly, m.dirtyLogMask, m.aliasMr, m.aliasOffset)

/-- Two hierarchies that differ in what is not rendered: in a region that is not enabled,
and in where a region is that no enabled region contains. -/
structure SameTopology (regions regions' : Regions) : Prop where
  enabled : ∀ mr, (regions' mr).enabled = (regions mr).enabled
  attributes : ∀ mr, (regions mr).enabled = true →
    (regions' mr).attributes = (regions mr).attributes
  subregions : ∀ mr, (regions mr).enabled = true →
    (regions' mr).subregions.filter (fun sub => (regions sub).enabled) =
      (regions mr).subregions.filter fun sub => (regions sub).enabled
  addr : ∀ mr, (regions mr).enabled = true → ∀ sub ∈ (regions mr).subregions,
    (regions sub).enabled = true → (regions' sub).addr = (regions sub).addr

variable {mr sub : Rid} {root : Option Rid}

section
variable {regions regions' : Regions}

lemma render_of_disabled (h : (regions mr).enabled = false) (fuel : Nat)
    (view : FlatView) (base : Int) (clip : AddrRange) (readonly : Bool) :
    renderMemoryRegion regions (fuel + 1) view mr base clip readonly = some view := by
  rw [renderMemoryRegion]
  simp [h]

variable {view : FlatView}

/-- Rendering depends on `base + mr->addr` only, and not on what `SameTopology` leaves open. A
disabled subregion may be one level deeper than all others. -/
lemma renderMemoryRegion_congr (h : SameTopology regions regions') {fuel : Nat}
    {base base' : Int} {clip : AddrRange} {readonly : Bool} {view' : FlatView}
    (hbase : (regions mr).enabled = true → base' + int128Make64 (regions' mr).addr =
      base + int128Make64 (regions mr).addr)
    (hrun : renderMemoryRegion regions fuel view mr base clip readonly = some view') :
    renderMemoryRegion regions' (fuel + 1) view mr base' clip readonly = some view' := by
  induction fuel generalizing mr base base' clip readonly view view' with
  | zero => cases hrun
  | succ fuel ih =>
    cases henabled : (regions mr).enabled with
    | false =>
      rw [render_of_disabled henabled] at hrun
      rw [render_of_disabled (by rw [h.enabled, henabled]), hrun]
    | true =>
      have hattributes := h.attributes mr henabled
      simp only [MemoryRegion.attributes, Prod.mk.injEq] at hattributes
      obtain ⟨hsize, hterm, hromd, hreadonly, hmask, halias, hoffset⟩ := hattributes
      rw [renderMemoryRegion] at hrun ⊢
      simp only [h.enabled, henabled, hbase henabled, hsize, hreadonly, halias, hoffset, hterm,
        Bool.not_true, Bool.false_eq_true, if_false] at hrun ⊢
      split at hrun
      · next hout => rw [if_pos hout, hrun]
      next hin =>
      rw [if_neg hin]
      cases hal : (regions mr).aliasMr with
      | some target =>
        rw [hal] at hrun
        exact ih (fun _ => by omega) hrun
      | none =>
        rw [hal] at hrun
        obtain ⟨view₁, hfold, hself⟩ := bind_eq_some_iff.mp hrun
        refine bind_eq_some_iff.mpr ⟨view₁, ?_, ?_⟩
        · -- over the enabled subregions, which are the same
          refine foldlM_of_filter (p := fun sub => (regions sub).enabled) (fun sub _ hsub view =>
            render_of_disabled (by rw [h.enabled, hsub]) _ _ _ _ _) ?_
          rw [h.subregions mr henabled]
          refine foldlM_mono (fun sub hsub view view' hstep => ih (fun hsub' => ?_) hstep)
            (foldlM_filter (fun sub _ hsub view view' hstep => ?_) hfold)
          · rw [h.addr mr henabled sub (mem_of_mem_filter hsub) hsub']
          cases fuel with
          | zero => cases hstep
          | succ fuel =>
            rw [render_of_disabled hsub] at hstep
            exact (Option.some.inj hstep).symm
        · simpa only [renderSelf, hmask, hromd] using hself

lemma SameTopology.refl (regions : Regions) : SameTopology regions regions :=
  ⟨fun _ => rfl, fun _ _ => rfl, fun _ _ => rfl, fun _ _ _ _ _ => rfl⟩

lemma topology_of_generate {fuel : Nat}
    (hrun : generateMemoryTopology regions fuel root = some view) : Topology regions root view := by
  cases root with
  | none => exact ⟨0, fun _ _ => hrun⟩
  | some mr =>
    obtain ⟨rendered, hrender, rfl⟩ := map_eq_some_iff.mp hrun
    refine ⟨fuel, fun fuel' hle => map_eq_some_iff.mpr ⟨rendered, ?_, rfl⟩⟩
    induction hle with
    | refl => exact hrender
    | step _ ih => exact renderMemoryRegion_congr (SameTopology.refl regions) (fun _ => rfl) ih

lemma SameTopology.topology (h : SameTopology regions regions')
    (hroot : ∀ mr, root = some mr → (regions mr).enabled = true → (regions' mr).addr = (regions mr).addr)
    (ht : Topology regions root view) : Topology regions' root view := by
  obtain ⟨n, hn⟩ := ht
  cases root with
  | none => exact ⟨n, fun fuel hle => hn fuel hle⟩
  | some mr =>
    obtain ⟨rendered, hrender, rfl⟩ := map_eq_some_iff.mp (hn n le_rfl)
    have hrender' : renderMemoryRegion regions' (n + 1) [] mr 0 ⟨0, 2 ^ 64⟩ false = some rendered :=
      renderMemoryRegion_congr h (fun henabled => by rw [hroot mr rfl henabled]) hrender
    exact topology_of_generate (map_eq_some_iff.mpr ⟨rendered, hrender', rfl⟩)
end

/-! ## States -/

structure WellFormed (regions : Regions) : Prop where
  parent : ∀ mr, ∀ sub ∈ (regions mr).subregions, (regions sub).parent = some mr
  nodup : ∀ mr, (regions mr).subregions.Nodup

def InSync (s : MemoryState) : Prop :=
  ∀ as ∈ s.addressSpaces, Topology s.regions (s.root as) (s.currentMap as)

structure Tracked (s : MemoryState) : Prop where
  wellFormed : WellFormed s.regions
  nodup : s.addressSpaces.Nodup
  inSync : s.updatePending = false → InSync s

structure Settled (s : MemoryState) : Prop extends Tracked s where
  notPending : s.transactionDepth = 0 → s.updatePending = false

variable {as : AsId}

section
variable {s s' : MemoryState} {fuel : Nat}

lemma Tracked.begin (h : Tracked s) : Tracked (memoryRegionTransactionBegin s) :=
  ⟨h.wellFormed, h.nodup, h.inSync⟩

lemma updateTopology_eq_some (hrun : addressSpaceUpdateTopology fuel s as = some s') :
    ∃ new events, generateMemoryTopology s.regions fuel (s.root as) = some new ∧
      addressSpaceUpdateTopologyEvents as (s.currentMap as) new = some events ∧
      s' = { s with currentMap := update s.currentMap as new, events := s.events ++ events } := by
  obtain ⟨new, hnew, hrun⟩ := bind_eq_some_iff.mp hrun
  obtain ⟨events, hevents, hrun⟩ := bind_eq_some_iff.mp hrun
  exact ⟨new, events, hnew, hevents, (Option.some.inj hrun).symm⟩

structure SameButMaps (s s' : MemoryState) : Prop where
  regions : s'.regions = s.regions
  transactionDepth : s'.transactionDepth = s.transactionDepth
  updatePending : s'.updatePending = s.updatePending
  addressSpaces : s'.addressSpaces = s.addressSpaces
  root : s'.root = s.root

lemma foldlM_updateTopology {l : List AsId}
    (hrun : l.foldlM (addressSpaceUpdateTopology fuel) s = some s') :
    SameButMaps s s' ∧ ∀ as, (as ∈ l → Topology s.regions (s.root as) (s'.currentMap as)) ∧
      (as ∉ l → s'.currentMap as = s.currentMap as) := by
  induction l generalizing s with
  | nil =>
    cases hrun
    exact ⟨⟨rfl, rfl, rfl, rfl, rfl⟩, fun as => ⟨nofun, fun _ => rfl⟩⟩
  | cons a l ih =>
    obtain ⟨s₁, hfirst, hrest⟩ := foldlM_cons_eq_some.mp hrun
    obtain ⟨new, events, hnew, -, rfl⟩ := updateTopology_eq_some hfirst
    obtain ⟨hsame, hmaps⟩ := ih hrest
    refine ⟨⟨hsame.1, hsame.2, hsame.3, hsame.4, hsame.5⟩, fun as => ⟨fun has => ?_, fun has => ?_⟩⟩
    · by_cases hl : as ∈ l
      · exact (hmaps as).1 hl
      · obtain rfl := (mem_cons.mp has).resolve_right hl
        rw [((hmaps as).2 hl).trans (update_self ..)]
        exact topology_of_generate hnew
    · rw [mem_cons, not_or] at has
      exact ((hmaps as).2 has.2).trans (update_of_ne has.1 ..)

lemma commit_cases (hrun : memoryRegionTransactionCommit fuel s = some s') :
    (s.transactionDepth = 1 ∧ s.updatePending = true ∧
        SameButMaps { s with transactionDepth := 0, updatePending := false } s' ∧
        InSync s') ∨
      ((s.transactionDepth = 1 → s.updatePending = false) ∧
        s' = { s with transactionDepth := s.transactionDepth - 1 }) := by
  rw [memoryRegionTransactionCommit] at hrun
  split at hrun
  · cases hrun
  next hdepth =>
  dsimp only at hrun
  split at hrun
  · next hflush =>
    have hone : s.transactionDepth = 1 := by omega
    obtain ⟨hsame, hmaps⟩ := foldlM_updateTopology hrun
    refine .inl ⟨hone, hflush.2, ⟨hsame.1, hsame.2.trans hflush.1, hsame.3, hsame.4, hsame.5⟩,
      fun as has => ?_⟩
    rw [hsame.addressSpaces] at has
    rw [hsame.regions, hsame.root]
    exact (hmaps as).1 has
  · next hnot =>
    refine .inr ⟨fun hone => ?_, (Option.some.inj hrun).symm⟩
    exact Bool.eq_false_iff.mpr fun hpending => hnot ⟨by omega, hpending⟩

lemma Tracked.commit (h : Tracked s) (hrun : memoryRegionTransactionCommit fuel s = some s') :
    Settled s' := by
  have hpos : s.transactionDepth ≠ 0 := by
    intro hzero
    rw [memoryRegionTransactionCommit, if_pos hzero] at hrun
    cases hrun
  rcases commit_cases hrun with ⟨-, -, hsame, hsync⟩ | ⟨hnot, rfl⟩
  · exact ⟨⟨hsame.regions ▸ h.wellFormed, hsame.addressSpaces ▸ h.nodup, fun _ => hsync⟩,
      fun _ => hsame.updatePending⟩
  · exact ⟨⟨h.wellFormed, h.nodup, h.inSync⟩, fun hdepth => hnot (by dsimp only at hdepth; omega)⟩

lemma commit_nested (h : 2 ≤ s.transactionDepth) : memoryRegionTransactionCommit fuel s =
      some { s with transactionDepth := s.transactionDepth - 1 } := by
  rw [memoryRegionTransactionCommit, if_neg (by omega)]
  exact if_neg fun hnot => by
    have := hnot.1
    dsimp only at this
    omega
end

variable {regions : Regions} {f : MemoryRegion → MemoryRegion}

section
variable {s s' : MemoryState} {fuel : Nat}

lemma Tracked.pend (h : Tracked s) {t : MemoryState} {pending : Bool}
    (hwf : WellFormed t.regions) (hspaces : t.addressSpaces = s.addressSpaces)
    (hpending : t.updatePending = s.updatePending)
    (hsync : pending = false → s.updatePending = false → InSync s → InSync t) :
    Tracked (t.pend pending) := by
  refine ⟨hwf, hspaces ▸ h.nodup, fun hfalse => ?_⟩
  obtain ⟨ht, hfalse⟩ := Bool.or_eq_false_iff.mp hfalse
  have hs := hpending.symm.trans ht
  exact hsync hfalse hs (h.inSync hs)

lemma WellFormed.of_eq {regions' : Regions} (h : WellFormed regions)
    (hparent : ∀ mr, (regions' mr).parent = (regions mr).parent)
    (hsubs : ∀ mr, (regions' mr).subregions = (regions mr).subregions) : WellFormed regions' :=
  ⟨fun mr sub hsub => by
    rw [hsubs] at hsub
    rw [hparent, h.parent mr sub hsub], fun mr => by
    rw [hsubs]
    exact h.nodup mr⟩

lemma assign_field {β : Type*} (field : MemoryRegion → β)
    (hf : field (f (s.regions mr)) = field (s.regions mr)) (r : Rid) :
    field ((s.assign mr f).regions r) = field (s.regions r) := by
  by_cases hr : r = mr
  · subst hr
    exact (congrArg field (update_self ..)).trans hf
  · exact congrArg field (update_of_ne hr ..)

lemma SameTopology.assign {mr : Rid} (hdisabled : (s.regions mr).enabled = false)
    {f : MemoryRegion → MemoryRegion} (hf : (f (s.regions mr)).enabled = (s.regions mr).enabled) :
    SameTopology s.regions (s.assign mr f).regions ∧ ∀ r, (s.regions r).enabled = true →
      (s.assign mr f).regions r = s.regions r := by
  have hother : ∀ r, (s.regions r).enabled = true → (s.assign mr f).regions r = s.regions r := by
    intro r hr
    refine update_of_ne (fun heq => ?_) _ _
    rw [heq, hdisabled] at hr
    cases hr
  exact ⟨⟨assign_field _ hf, fun r hr => by rw [hother r hr], fun r hr => by rw [hother r hr],
    fun r _ sub _ hsub => by rw [hother sub hsub]⟩, hother⟩

lemma Tracked.setAttribute (h : Tracked s)
    (henabled : (f (s.regions mr)).enabled = (s.regions mr).enabled)
    (hparent : (f (s.regions mr)).parent = (s.regions mr).parent)
    (hsubs : (f (s.regions mr)).subregions = (s.regions mr).subregions)
    (hrun : setAttribute fuel mr f s = some s') : Settled s' := by
  have htracked : Tracked (((memoryRegionTransactionBegin s).assign mr f).pend
      (((memoryRegionTransactionBegin s).assign mr f).regions mr).enabled) := by
    refine h.begin.pend (h.wellFormed.of_eq (assign_field _ hparent) (assign_field _ hsubs)) rfl rfl
      fun hpending _ hsync as has => ?_
    have hdisabled := (assign_field MemoryRegion.enabled henabled mr).symm.trans hpending
    obtain ⟨hsame, hother⟩ := @SameTopology.assign s mr hdisabled f henabled
    exact hsame.topology (fun r _ hr => congrArg MemoryRegion.addr (hother r hr)) (hsync as has)
  exact htracked.commit hrun

lemma Tracked.assign (h : Tracked s) {mr : Rid} {f : MemoryRegion → MemoryRegion}
    (henabled : (f (s.regions mr)).enabled = (s.regions mr).enabled)
    (hattributes : (f (s.regions mr)).attributes = (s.regions mr).attributes)
    (hparent : (f (s.regions mr)).parent = (s.regions mr).parent)
    (hsubs : (f (s.regions mr)).subregions = (s.regions mr).subregions)
    (haddr : (f (s.regions mr)).addr = (s.regions mr).addr) : Tracked (s.assign mr f) := by
  have hsame : SameTopology s.regions (s.assign mr f).regions :=
    ⟨assign_field _ henabled, fun r _ => assign_field _ hattributes r,
      fun r _ => by rw [assign_field MemoryRegion.subregions hsubs r],
      fun _ _ sub _ _ => assign_field _ haddr sub⟩
  refine ⟨h.wellFormed.of_eq (assign_field _ hparent) (assign_field _ hsubs), h.nodup,
    fun hpending as has => ?_⟩
  exact hsame.topology (fun r _ _ => assign_field _ haddr r) (h.inSync hpending as has)

lemma insertSubregion_perm (regions : Regions) (sub : Rid) (l : List Rid) :
    (insertSubregion regions sub l).Perm (sub :: l) := by
  induction l with
  | nil => exact List.Perm.refl _
  | cons other rest ih =>
    rw [insertSubregion]
    split
    · exact List.Perm.refl _
    · exact (ih.cons other).trans (List.Perm.swap sub other rest)

lemma filter_insertSubregion {p : Rid → Bool} (hp : p sub = false) (regions : Regions)
    (l : List Rid) : (insertSubregion regions sub l).filter p = l.filter p := by
  induction l with
  | nil => rw [insertSubregion, filter_cons_of_neg (by simp [hp])]
  | cons other rest ih =>
    rw [insertSubregion]
    split
    · rw [filter_cons_of_neg (by simp [hp])]
    · rw [filter_cons, filter_cons, ih]

lemma filter_erase_of_neg {p : Rid → Bool} (hp : p sub = false) (l : List Rid) :
    (l.erase sub).filter p = l.filter p := by
  induction l with
  | nil => rfl
  | cons other rest ih =>
    by_cases heq : other = sub
    · subst heq
      rw [erase_cons_head, filter_cons_of_neg (by simp [hp])]
    · rw [erase_cons_tail (by simpa using heq), filter_cons, filter_cons, ih]

/-- The hierarchy after `subregion` has been linked into `mr`. -/
def linked (regions : Regions) (mr : Rid) (offset : HwAddr) (sub : Rid) : Regions :=
  let regions := update regions sub { regions sub with parent := some mr, addr := offset }
  update regions mr
    { regions mr with subregions := insertSubregion regions sub (regions mr).subregions }

/-- The hierarchy after `subregion` has been unlinked from `mr`. -/
def unlinked (regions : Regions) (mr : Rid) (sub : Rid) : Regions :=
  let regions := update regions sub { regions sub with parent := none }
  update regions mr { regions mr with subregions := (regions mr).subregions.erase sub }

section
variable {regions : Regions} {mr sub : Rid} {offset : HwAddr}

lemma linked_apply (r : Rid) : linked regions mr offset sub r =
    { regions r with
      parent := if r = sub then some mr else (regions r).parent
      addr := if r = sub then offset else (regions r).addr
      subregions := if r = mr then
        insertSubregion (update regions sub { regions sub with parent := some mr, addr := offset })
          sub (regions r).subregions
        else (regions r).subregions } := by
  simp only [linked, update_apply]
  split_ifs <;> simp_all

lemma linked_enabled (r : Rid) : (linked regions mr offset sub r).enabled = (regions r).enabled := by
  rw [linked_apply]

lemma unlinked_apply (r : Rid) : unlinked regions mr sub r =
    { regions r with
      parent := if r = sub then none else (regions r).parent
      subregions := if r = mr then (regions r).subregions.erase sub else (regions r).subregions } := by
  simp only [unlinked, update_apply]
  split_ifs <;> simp_all

lemma unlinked_enabled (r : Rid) : (unlinked regions mr sub r).enabled = (regions r).enabled := by
  rw [unlinked_apply]

lemma unlinked_addr (r : Rid) : (unlinked regions mr sub r).addr = (regions r).addr := by
  rw [unlinked_apply]

section
variable (h : WellFormed regions)
include h

lemma WellFormed.not_mem (hparent : (regions sub).parent = none) (r : Rid) :
    sub ∉ (regions r).subregions := by
  intro hmem
  rw [h.parent r sub hmem] at hparent
  cases hparent

lemma WellFormed.linked (hparent : (regions sub).parent = none) :
    WellFormed (linked regions mr offset sub) := by
  refine ⟨fun r c hc => ?_, fun r => ?_⟩
  · simp only [linked_apply] at hc ⊢
    have hold : c ∈ (regions r).subregions → (if c = sub then some mr else (regions c).parent) = some r := by
      intro hc
      have hne : c ≠ sub := fun heq => h.not_mem hparent r (heq ▸ hc)
      rw [if_neg hne, h.parent r c hc]
    split at hc
    · next hr =>
      rcases mem_cons.mp ((insertSubregion_perm _ sub _).mem_iff.mp hc) with heq | hc
      · rw [if_pos heq, hr]
      · exact hold hc
    · exact hold hc
  · simp only [linked_apply]
    split
    · exact (insertSubregion_perm _ sub _).nodup_iff.mpr
        (nodup_cons.mpr ⟨h.not_mem hparent r, h.nodup r⟩)
    · exact h.nodup r

lemma WellFormed.unlinked (hparent : (regions sub).parent = some mr) :
    WellFormed (unlinked regions mr sub) := by
  refine ⟨fun r c hc => ?_, fun r => ?_⟩
  · simp only [unlinked_apply] at hc ⊢
    have hold : c ∈ (regions r).subregions := by
      split at hc
      · exact mem_of_mem_erase hc
      · exact hc
    rw [if_neg, h.parent r c hold]
    rintro rfl
    -- the parent of the region is `mr`, whose list had it once
    obtain rfl : mr = r := Option.some.inj (hparent.symm.trans (h.parent r c hold))
    rw [if_pos rfl] at hc
    exact (h.nodup mr).not_mem_erase hc
  · simp only [unlinked_apply]
    split
    · exact (h.nodup r).erase sub
    · exact h.nodup r

lemma SameTopology.linked (hparent : (regions sub).parent = none)
    (hpending : ((regions mr).enabled && (regions sub).enabled) = false) :
    SameTopology regions (linked regions mr offset sub) := by
  refine ⟨linked_enabled, fun r _ => by rw [linked_apply]; rfl, fun r hr => ?_, fun r _ c hc _ => ?_⟩
  · simp only [linked_apply]
    split
    · next heq =>
      subst heq
      exact filter_insertSubregion ((Bool.and_eq_false_iff.mp hpending).resolve_left (by simp [hr])) _ _
    · rfl
  · have hne : c ≠ sub := fun heq => h.not_mem hparent r (heq ▸ hc)
    simp only [linked_apply, if_neg hne]
end

lemma SameTopology.unlinked (hpending : ((regions mr).enabled && (regions sub).enabled) = false) :
    SameTopology regions (unlinked regions mr sub) := by
  refine ⟨unlinked_enabled, fun r _ => by rw [unlinked_apply]; rfl, fun r hr => ?_, fun r _ c _ _ =>
    unlinked_addr c⟩
  simp only [unlinked_apply]
  split
  · next heq =>
    subst heq
    exact filter_erase_of_neg ((Bool.and_eq_false_iff.mp hpending).resolve_left (by simp [hr])) _
  · rfl
end

/-- The condition on a new address of a region, below the parent `mr`. If the region is
enabled and its parent is not, no update becomes pending, but the region may be the root of
an address space, where its address is not relative to the parent. -/
def MoveSafe (s : MemoryState) (mr : Rid) (addr : HwAddr) (sub : Rid) : Prop :=
  (∃ as ∈ s.addressSpaces, s.root as = some sub) → (s.regions sub).enabled = true →
    (s.regions mr).enabled = false → (s.regions sub).addr ≠ addr → s.updatePending = true

lemma Tracked.addSubregionCommon (h : Tracked s) {offset : HwAddr}
    (hsafe : MoveSafe s mr offset sub)
    (hrun : memoryRegionAddSubregionCommon fuel mr offset sub s = some s') : Settled s' := by
  rw [memoryRegionAddSubregionCommon] at hrun
  split at hrun
  · cases hrun
  next hparent =>
  replace hparent : (s.regions sub).parent = none := not_not.mp hparent
  refine Tracked.commit ?_ hrun
  refine h.begin.pend (h.wellFormed.linked hparent) rfl rfl fun hpending hnot hsync as has => ?_
  replace hpending : ((s.regions mr).enabled && (s.regions sub).enabled) = false := by
    rw [← hpending]
    exact (congrArg₂ and (linked_enabled mr) (linked_enabled sub)).symm
  refine (SameTopology.linked h.wellFormed hparent hpending).topology (fun r hroot hr => ?_)
    (hsync as has)
  simp only [linked_apply]
  split
  · next heq =>
    subst heq
    by_contra hne
    have hmr : (s.regions mr).enabled = false :=
      (Bool.and_eq_false_iff.mp hpending).resolve_right (by simp [hr])
    have := hsafe ⟨as, has, hroot⟩ hr hmr (Ne.symm hne)
    rw [show s.updatePending = false from hnot] at this
    cases this
  · rfl

lemma Tracked.delSubregion (h : Tracked s)
    (hrun : memoryRegionDelSubregion fuel mr sub s = some s') : Settled s' := by
  rw [memoryRegionDelSubregion] at hrun
  split at hrun
  · cases hrun
  next hparent =>
  replace hparent : (s.regions sub).parent = some mr := not_not.mp hparent
  refine Tracked.commit ?_ hrun
  refine h.begin.pend (h.wellFormed.unlinked hparent) rfl rfl fun hpending _ hsync as has => ?_
  replace hpending : ((s.regions mr).enabled && (s.regions sub).enabled) = false := by
    rw [← hpending]
    exact (congrArg₂ and (unlinked_enabled mr) (unlinked_enabled sub)).symm
  exact (SameTopology.unlinked hpending).topology (fun r _ _ => unlinked_addr r) (hsync as has)

lemma Tracked.addSubregion (h : Tracked s) {offset : HwAddr} {mayOverlap : Bool}
    {priority : Int} (hsafe : MoveSafe s mr offset sub)
    (hrun : memoryRegionAddSubregionCommon fuel mr offset sub
      (s.assign sub fun m => { m with mayOverlap := mayOverlap, priority := priority }) = some s') :
    Settled s' := by
  refine (h.assign rfl rfl rfl rfl rfl).addSubregionCommon (fun hroot hsub hmr haddr => ?_) hrun
  rw [assign_field MemoryRegion.enabled rfl] at hsub hmr
  rw [assign_field MemoryRegion.addr rfl] at haddr
  exact hsafe hroot hsub hmr haddr

lemma Settled.setEnabled (h : Settled s) {enabled : Bool}
    (hrun : memoryRegionSetEnabled fuel mr enabled s = some s') : Settled s' := by
  rw [memoryRegionSetEnabled] at hrun
  split at hrun
  · rwa [← Option.some.inj hrun]
  have hwf : WellFormed ((memoryRegionTransactionBegin s).assign mr
      fun m => { m with enabled := enabled }).regions :=
    h.wellFormed.of_eq (assign_field _ rfl) (assign_field _ rfl)
  refine Tracked.commit ?_ hrun
  exact ⟨hwf, h.nodup, fun hpending => by cases hpending⟩

lemma delSubregion_nested (hdepth : 1 ≤ s.transactionDepth)
    (hrun : memoryRegionDelSubregion fuel mr sub s = some s') :
    s'.regions = unlinked s.regions mr sub ∧ s'.addressSpaces = s.addressSpaces ∧
      s'.root = s.root ∧ (s.updatePending = true → s'.updatePending = true) := by
  rw [memoryRegionDelSubregion] at hrun
  split at hrun
  · cases hrun
  rw [commit_nested (Nat.succ_le_succ hdepth)] at hrun
  cases hrun
  exact ⟨rfl, rfl, rfl, fun hpending => Bool.or_eq_true_iff.mpr (.inl hpending)⟩

lemma Settled.setAddress (h : Settled s) {parent : Rid} {addr : HwAddr}
    (hparent : (s.regions mr).parent = some parent) (hsafe : MoveSafe s parent addr mr)
    (hrun : memoryRegionSetAddress fuel mr addr s = some s') : Settled s' := by
  rw [memoryRegionSetAddress] at hrun
  simp only [hparent] at hrun
  split at hrun
  · rwa [← Option.some.inj hrun]
  obtain ⟨s₁, hdel, hrun⟩ := bind_eq_some_iff.mp hrun
  obtain ⟨hregions, hspaces, hroot, hpending⟩ :=
    delSubregion_nested (Nat.succ_le_succ (Nat.zero_le _)) hdel
  have hdeleted := h.toTracked.begin.delSubregion hdel
  have hsafe' : MoveSafe s₁ parent addr mr := by
    intro hex hmr hp haddr
    rw [hregions, unlinked_enabled] at hmr hp
    rw [hregions, unlinked_addr] at haddr
    rw [hspaces, hroot] at hex
    exact hpending (hsafe hex hmr hp haddr)
  split at hrun
  · obtain ⟨s₂, hadd, hcommit⟩ := bind_eq_some_iff.mp hrun
    exact (hdeleted.toTracked.addSubregion hsafe' hadd).toTracked.commit hcommit
  · obtain ⟨s₂, hadd, hcommit⟩ := bind_eq_some_iff.mp hrun
    exact (hdeleted.toTracked.addSubregion hsafe' hadd).toTracked.commit hcommit

lemma topology_of_disabled {root : Rid}
    (h : (regions root).enabled = false) : Topology regions (some root) [] := by
  have hrender := render_of_disabled h 0 [] 0 ⟨0, 2 ^ 64⟩ false
  exact topology_of_generate (map_eq_some_iff.mpr ⟨[], hrender, rfl⟩)

lemma Tracked.addressSpaceInit (h : Tracked s) {root : Rid}
    (hrun : addressSpaceInit fuel as root s = some s') : Settled s' := by
  rw [Memory.addressSpaceInit] at hrun
  split at hrun
  · cases hrun
  next hnew =>
  refine Tracked.commit ?_ hrun
  refine ⟨h.wellFormed, ?_, fun hpending as' has' => ?_⟩
  · exact nodup_append.mpr ⟨h.nodup, nodup_singleton as, fun a ha b hb heq =>
      hnew (mem_singleton.mp hb ▸ heq ▸ ha)⟩
  obtain ⟨hpending, hdisabled⟩ := Bool.or_eq_false_iff.mp hpending
  change Topology s.regions (update s.root as (some root) as')
    (update s.currentMap as [] as')
  by_cases heq : as' = as
  · rw [heq, update_self, update_self]
    exact topology_of_disabled hdisabled
  · rw [update_of_ne heq, update_of_ne heq]
    refine h.inSync hpending as' ((mem_append.mp has').resolve_right fun hlast => ?_)
    exact heq (mem_singleton.mp hlast)

lemma Settled.addressSpaceDestroy (h : Settled s)
    (hrun : addressSpaceDestroy fuel as s = some s') : Settled s' := by
  rw [Memory.addressSpaceDestroy] at hrun
  split at hrun
  · cases hrun
  obtain ⟨s₁, hcommit, rfl⟩ := map_eq_some_iff.mp hrun
  rcases commit_cases hcommit with ⟨-, -, hsame, hsync⟩ | ⟨hnot, rfl⟩
  · have hnodup := hsame.addressSpaces ▸ h.nodup
    exact ⟨⟨hsame.regions ▸ h.wellFormed, hnodup.erase as,
      fun _ as' has' => hsync as' (mem_of_mem_erase has')⟩, fun _ => hsame.updatePending⟩
  refine ⟨⟨h.wellFormed, h.nodup.erase as, fun hpending as' has' => ?_⟩, fun hdepth => h.notPending ?_⟩
  · have hne : as' ≠ as := fun heq => h.nodup.not_mem_erase (heq ▸ has')
    have hsync := h.inSync hpending as' (mem_of_mem_erase has')
    change Topology s.regions (update s.root as none as') (s.currentMap as')
    rwa [update_of_ne hne]
  · exact hdepth
end

/-- The condition on a call. `memory_region_set_address` is for regions that have a parent. -/
def Op.Safe (s : MemoryState) : Op → Prop
  | .addSubregion mr offset sub => MoveSafe s mr offset sub
  | .addSubregionOverlap mr offset sub _ => MoveSafe s mr offset sub
  | .setAddress mr addr => ∃ parent, (s.regions mr).parent = some parent ∧ MoveSafe s parent addr mr
  | _ => True

inductive SafeRun (s : MemoryState) : MemoryState → Prop
  | refl : SafeRun s s
  | step {s₁ s₂ : MemoryState} {op : Op} {fuel : Nat} : SafeRun s s₁ → op.Safe s₁ →
      op.step fuel s₁ = some s₂ → SafeRun s s₂

lemma Settled.step {s s' : MemoryState} {op : Op} {fuel : Nat} (h : Settled s) (hsafe : op.Safe s)
    (hrun : op.step fuel s = some s') : Settled s' := by
  cases op with
  | begin =>
    cases hrun
    exact ⟨h.toTracked.begin, nofun⟩
  | commit => exact h.toTracked.commit hrun
  | addSubregion mr offset sub | addSubregionOverlap mr offset sub priority =>
    exact h.toTracked.addSubregion hsafe hrun
  | delSubregion mr sub => exact h.toTracked.delSubregion hrun
  | setEnabled mr enabled => exact h.setEnabled hrun
  | setAddress mr addr =>
    obtain ⟨parent, hparent, hsafe⟩ := hsafe
    exact h.setAddress hparent hsafe hrun
  | setAliasOffset mr offset =>
    simp only [Op.step, memoryRegionSetAliasOffset] at hrun
    split at hrun
    · cases hrun
    split at hrun
    · rwa [← Option.some.inj hrun]
    · exact h.toTracked.setAttribute rfl rfl rfl hrun
  | setReadonly mr readonly =>
    simp only [Op.step, memoryRegionSetReadonly] at hrun
    split at hrun
    · exact h.toTracked.setAttribute rfl rfl rfl hrun
    · rwa [← Option.some.inj hrun]
  | romDeviceSetRomd mr romdMode =>
    simp only [Op.step, memoryRegionRomDeviceSetRomd] at hrun
    split at hrun
    · exact h.toTracked.setAttribute rfl rfl rfl hrun
    · rwa [← Option.some.inj hrun]
  | setLog mr log client => exact h.toTracked.setAttribute rfl rfl rfl hrun
  | addressSpaceInit as root => exact h.toTracked.addressSpaceInit hrun
  | addressSpaceDestroy as => exact h.addressSpaceDestroy hrun

lemma Settled.run {s s' : MemoryState} (h : Settled s) (hrun : SafeRun s s') : Settled s' := by
  induction hrun with
  | refl => exact h
  | step _ hsafe hstep ih => exact ih.step hsafe hstep

def MemoryState.initial (regions : Regions) : MemoryState :=
  { regions := regions
    transactionDepth := 0
    updatePending := false
    addressSpaces := []
    root := fun _ => none
    currentMap := fun _ => []
    events := [] }

lemma settled_initial (h : ∀ mr, (regions mr).subregions = []) :
    Settled (MemoryState.initial regions) := by
  refine ⟨⟨⟨fun mr sub hsub => ?_, fun mr => ?_⟩, nodup_nil, fun _ => nofun⟩, fun _ => rfl⟩
  · have : sub ∈ (regions mr).subregions := hsub
    rw [h mr] at this
    cases this
  · exact (h mr).symm ▸ nodup_nil

lemma Topology.unique {view view' : FlatView}
    (h : Topology regions root view) (h' : Topology regions root view') : view = view' := by
  obtain ⟨n, hn⟩ := h
  obtain ⟨n', hn'⟩ := h'
  exact Option.some.inj ((hn (n + n') (by omega)).symm.trans (hn' (n + n') (by omega)))

/-- In every run whose calls are safe, the current map of every registered address space is
the topology of its root whenever the transaction depth is zero. -/
theorem currentMap_eq_topology {s s' : MemoryState} (h : Settled s) (hrun : SafeRun s s')
    (hdepth : s'.transactionDepth = 0) :
    ∀ as ∈ s'.addressSpaces, Topology s'.regions (s'.root as) (s'.currentMap as) := by
  have hsettled := h.run hrun
  exact hsettled.inSync (hsettled.notPending hdepth)

def twoRegions : Regions := fun mr =>
  if mr = 0 then { memoryRegionInit 0x1000#64 with terminates := true }
  else memoryRegionInit 0x4000#64

/-- The RAM is an address space of its own, and is then put into the container. -/
theorem currentMap_eq_topology_moved :
    ∃ s, SafeRun (MemoryState.initial twoRegions) s ∧ s.transactionDepth = 0 ∧
      Topology s.regions (some 0) [⟨0, 0#64, ⟨0x1000, 0x1000⟩, 0#8, true, false⟩] := by
  let s₁ := ((Op.addressSpaceInit 0 0).step 3 (MemoryState.initial twoRegions)).get (by decide)
  let s₂ := ((Op.addSubregion 1 0x1000#64 0).step 3 s₁).get (by decide)
  have hinit : (Op.addressSpaceInit 0 0).step 3 (MemoryState.initial twoRegions) = some s₁ :=
    (some_get _).symm
  have hadd : (Op.addSubregion 1 0x1000#64 0).step 3 s₁ = some s₂ := (some_get _).symm
  have hsafe : (Op.addSubregion 1 0x1000#64 0).Safe s₁ := fun _ _ hdisabled _ => by
    cases (show (s₁.regions 1).enabled = true by decide).symm.trans hdisabled
  have hrun : SafeRun (MemoryState.initial twoRegions) s₂ :=
    SafeRun.step (SafeRun.step .refl (show (Op.addressSpaceInit 0 0).Safe _ from trivial) hinit)
      hsafe hadd
  have hregions : ∀ mr, (twoRegions mr).subregions = [] := fun mr => by
    rw [twoRegions]
    split <;> rfl
  refine ⟨s₂, hrun, by decide, ?_⟩
  have hroot : s₂.root 0 = some 0 := by decide
  have hmap : s₂.currentMap 0 = [⟨0, 0#64, ⟨0x1000, 0x1000⟩, 0#8, true, false⟩] := by decide
  rw [← hroot, ← hmap]
  exact currentMap_eq_topology (settled_initial hregions) hrun (by decide) 0 (by decide)

/-- With the container disabled, the address space keeps the old map: the RAM is at
`0x1000` now, but the map has it at zero. -/
theorem currentMap_stale :
    ∃ s, [Op.setEnabled 1 false, .addressSpaceInit 0 0, .addSubregion 1 0x1000#64 0].foldlM
        (fun s op => Op.step 3 op s) (MemoryState.initial twoRegions) = some s ∧
      s.transactionDepth = 0 ∧ 0 ∈ s.addressSpaces ∧
      s.currentMap 0 = [⟨0, 0#64, ⟨0, 0x1000⟩, 0#8, true, false⟩] ∧
      Topology s.regions (s.root 0) [⟨0, 0#64, ⟨0x1000, 0x1000⟩, 0#8, true, false⟩] ∧
      ¬Topology s.regions (s.root 0) (s.currentMap 0) := by
  let s := ([Op.setEnabled 1 false, .addressSpaceInit 0 0, .addSubregion 1 0x1000#64 0].foldlM
    (fun s op => Op.step 3 op s) (MemoryState.initial twoRegions)).get (by decide)
  have hmap : s.currentMap 0 = [⟨0, 0#64, ⟨0, 0x1000⟩, 0#8, true, false⟩] := by decide
  have htopology : Topology s.regions (s.root 0) [⟨0, 0#64, ⟨0x1000, 0x1000⟩, 0#8, true, false⟩] :=
    topology_of_generate
      (show generateMemoryTopology s.regions 3 (s.root 0) = _ by decide)
  refine ⟨s, (some_get _).symm, by decide, by decide, hmap, htopology, fun h => ?_⟩
  rw [hmap] at h
  exact absurd (h.unique htopology) (by decide)

end QemuVmi.Memory
