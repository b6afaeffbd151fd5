import QemuVmi.Memory.InSync

/-!
# The life of an address space, as a listener sees it

A listener that is registered before an address space is created is told of every section
of its maps. What it holds are the sections of the current map (`Followed`). The commit in
`address_space_destroy` is meant to delete them, but no update is pending then.
-/

namespace QemuVmi.Memory

open OptionFold List Function Option

section
variable (filter : Option AsId)

/-- `memory_listener_match`, for a listener with the filter `filter`. -/
def memoryListenerMatch (sec : MemoryRegionSection) : Bool :=
  match filter with
  | none => true
  | some as => as == sec.addressSpace

/-- The sections of the address space that were added and not deleted, as a listener with the
filter `filter` is told. -/
def heldOf (as : AsId) (events : List Event) : List MemoryRegionSection :=
  ((events.filter fun e => memoryListenerMatch filter e.sec).filter
    fun e => e.sec.addressSpace = as).foldl hold []

def Listens (as : AsId) : Prop := filter = none ∨ filter = some as
end

def MapsValid (s : MemoryState) : Prop := ∀ as, (s.currentMap as).Valid

/-- Since the events `past`, a listener has been told of the address space: it holds the
sections of the current map. -/
structure Followed (filter : Option AsId) (as : AsId) (past : List Event) (s : MemoryState) :
    Prop where
  registered : as ∈ s.addressSpaces
  held : ∃ events, s.events = past ++ events ∧
    (heldOf filter as events).Perm ((s.currentMap as).map (·.toSection as))

variable {more events : List Event}

section
variable {filter : Option AsId} {as : AsId} {past : List Event} {s s' : MemoryState} {fuel : Nat}

lemma addressSpace_of_mem_events {old new : FlatView} {e : Event}
    (he : e ∈ delEvents as old new ++ new.flatMap (addEvents as old)) : e.sec.addressSpace = as := by
  rcases mem_append.mp he with he | he
  · obtain ⟨r, -, rfl⟩ := mem_map.mp he
    rfl
  obtain ⟨r, -, he⟩ := mem_flatMap.mp he
  rw [addEvents] at he
  split at he
  · obtain rfl := mem_singleton.mp he
    rfl
  rcases mem_cons.mp he with rfl | he
  · rfl
  split at he
  · obtain rfl := mem_singleton.mp he
    rfl
  split at he
  · obtain rfl := mem_singleton.mp he
    rfl
  · cases he

lemma heldOf_append_self (hlistens : Listens filter as)
    (hmore : ∀ e ∈ more, e.sec.addressSpace = as) :
    heldOf filter as (events ++ more) = more.foldl hold (heldOf filter as events) := by
  have hmatch : ∀ e ∈ more, memoryListenerMatch filter e.sec = true := by
    intro e he
    rcases hlistens with rfl | rfl
    · rfl
    · exact beq_iff_eq.mpr (hmore e he).symm
  have hsame : more.filter (fun e => decide (e.sec.addressSpace = as)) = more :=
    filter_eq_self.mpr fun e he => by simpa using hmore e he
  rw [heldOf, filter_append, filter_append, foldl_append, filter_eq_self.mpr hmatch, hsame, heldOf]

lemma heldOf_append_of_ne (hmore : ∀ e ∈ more, e.sec.addressSpace ≠ as) :
    heldOf filter as (events ++ more) = heldOf filter as events := by
  have hnone : (more.filter fun e => memoryListenerMatch filter e.sec).filter
      (fun e => e.sec.addressSpace = as) = [] :=
    filter_eq_nil_iff.mpr fun e he => by simpa using hmore e (mem_of_mem_filter he)
  rw [heldOf, filter_append, filter_append, hnone, append_nil, heldOf]

lemma valid_of_generate {regions : Regions} {root : Option Rid} {view : FlatView}
    (hrun : generateMemoryTopology regions fuel root = some view) : view.Valid := by
  cases root with
  | none =>
    obtain rfl : [] = view := Option.some.inj hrun
    exact (ViewIn.nil 0 _).valid
  | some mr => exact (generateMemoryTopology_spec hrun).1.valid

lemma MapsValid.updateTopology (h : MapsValid s) {a : AsId}
    (hrun : addressSpaceUpdateTopology fuel s a = some s') : MapsValid s' := by
  obtain ⟨new, events, hnew, -, rfl⟩ := updateTopology_eq_some hrun
  intro as
  change FlatView.Valid (update s.currentMap a new as)
  by_cases heq : as = a
  · rw [heq, update_self]
    exact valid_of_generate hnew
  · rw [update_of_ne heq]
    exact h as

lemma Followed.updateTopology (hlistens : Listens filter as) (h : Followed filter as past s)
    (hvalid : MapsValid s) {a : AsId} (hrun : addressSpaceUpdateTopology fuel s a = some s') :
    Followed filter as past s' := by
  obtain ⟨new, events, hgenerate, hevents, rfl⟩ := updateTopology_eq_some hrun
  have hnew := valid_of_generate hgenerate
  obtain ⟨seen, hseen, hheld⟩ := h.held
  rw [updateTopologyEvents_eq (hvalid a) hnew] at hevents
  cases hevents
  refine ⟨h.registered, seen ++ _, (congrArg (· ++ _) hseen).trans (append_assoc ..), ?_⟩
  change List.Perm _ ((update s.currentMap a new as).map (·.toSection as))
  by_cases ha : as = a
  · subst ha
    rw [heldOf_append_self hlistens fun e he => addressSpace_of_mem_events he, update_self]
    exact holds_events (hvalid as) hnew hheld
  · rwa [heldOf_append_of_ne fun e he => addressSpace_of_mem_events he ▸ Ne.symm ha, update_of_ne ha]
end

/-- `memory_region_update_pending` is only set inside of transactions. -/
def NotPending (s : MemoryState) : Prop := s.transactionDepth = 0 → s.updatePending = false

def Op.Allowed (mayDestroy : AsId → Prop) : Op → Prop
  | .addressSpaceDestroy as => mayDestroy as
  | _ => True

inductive Run (mayDestroy : AsId → Prop) (s : MemoryState) : MemoryState → Prop
  | refl : Run mayDestroy s s
  | step {s₁ s₂ : MemoryState} {op : Op} {fuel : Nat} : Run mayDestroy s s₁ →
      op.Allowed mayDestroy → op.step fuel s₁ = some s₂ → Run mayDestroy s s₂

structure EventInvariant (mayDestroy : AsId → Prop) (I : MemoryState → Prop) : Prop where
  congr : ∀ {s t : MemoryState}, I s → t.addressSpaces = s.addressSpaces →
    t.currentMap = s.currentMap → t.events = s.events → I t
  update : ∀ {fuel : Nat} {s t : MemoryState} {as : AsId}, I s →
    addressSpaceUpdateTopology fuel s as = some t → I t
  init : ∀ {s : MemoryState} {as : AsId}, I s → as ∉ s.addressSpaces → I { s with
      addressSpaces := s.addressSpaces ++ [as]
      currentMap := Function.update s.currentMap as [] }
  destroy : ∀ {s : MemoryState} {as : AsId}, I s → mayDestroy as →
    I { s with addressSpaces := s.addressSpaces.erase as }

variable {mr sub : Rid} {f : MemoryRegion → MemoryRegion}

namespace EventInvariant

variable {mayDestroy : AsId → Prop} {I : MemoryState → Prop} {s s' t : MemoryState} {fuel : Nat}

section
variable (hI : EventInvariant mayDestroy I)
include hI

lemma commit
    (hrun : memoryRegionTransactionCommit fuel s = some s') (h : I s) : I s' ∧ NotPending s' := by
  have hpos : s.transactionDepth ≠ 0 := by
    intro hzero
    rw [memoryRegionTransactionCommit, if_pos hzero] at hrun
    cases hrun
  refine ⟨?_, ?_⟩
  · rw [memoryRegionTransactionCommit, if_neg hpos] at hrun
    dsimp only at hrun
    split at hrun
    · exact foldlM_invariant hrun (fun _ _ _ _ hs hstep => hI.update hs hstep)
        (hI.congr h rfl rfl rfl)
    · exact Option.some.inj hrun ▸ hI.congr h rfl rfl rfl
  · rcases commit_cases hrun with ⟨-, -, hsame, -⟩ | ⟨hnot, rfl⟩
    · exact fun _ => hsame.updatePending
    · exact fun hdepth => hnot (by dsimp only at hdepth; omega)

lemma addSubregion (h : I s) {offset : HwAddr}
    (hrun : memoryRegionAddSubregionCommon fuel mr offset sub (s.assign sub f) = some s') :
    I s' ∧ NotPending s' := by
  rw [memoryRegionAddSubregionCommon] at hrun
  split at hrun
  · cases hrun
  · exact hI.commit hrun (hI.congr h rfl rfl rfl)

lemma delSubregion (h : I s)
    (hrun : memoryRegionDelSubregion fuel mr sub s = some s') : I s' ∧ NotPending s' := by
  rw [memoryRegionDelSubregion] at hrun
  split at hrun
  · cases hrun
  · exact hI.commit hrun (hI.congr h rfl rfl rfl)

lemma setAttribute (h : I s) (hrun : Memory.setAttribute fuel mr f s = some s') :
    I s' ∧ NotPending s' :=
  hI.commit hrun (hI.congr h rfl rfl rfl)

lemma setAddress (h : I s) (hpending : NotPending s)
    {addr : HwAddr} (hrun : memoryRegionSetAddress fuel mr addr s = some s') :
    I s' ∧ NotPending s' := by
  rw [memoryRegionSetAddress] at hrun
  split at hrun
  · cases hrun
    exact ⟨hI.congr h rfl rfl rfl, hpending⟩
  split at hrun
  · exact Option.some.inj hrun ▸ ⟨h, hpending⟩
  obtain ⟨s₁, hdel, hrun⟩ := Option.bind_eq_some_iff.mp hrun
  have hdeleted := hI.delSubregion (hI.congr (t := memoryRegionTransactionBegin s) h rfl rfl rfl) hdel
  split at hrun
  · obtain ⟨s₂, hadd, hcommit⟩ := Option.bind_eq_some_iff.mp hrun
    exact hI.commit hcommit (hI.addSubregion hdeleted.1 hadd).1
  · obtain ⟨s₂, hadd, hcommit⟩ := Option.bind_eq_some_iff.mp hrun
    exact hI.commit hcommit (hI.addSubregion hdeleted.1 hadd).1

lemma step (h : I s) (hpending : NotPending s) {op : Op}
    (hallowed : op.Allowed mayDestroy) (hrun : op.step fuel s = some s') : I s' ∧ NotPending s' := by
  cases op with
  | begin =>
    cases hrun
    exact ⟨hI.congr h rfl rfl rfl, nofun⟩
  | commit => exact hI.commit hrun h
  | addSubregion mr offset sub | addSubregionOverlap mr offset sub priority =>
    exact hI.addSubregion h hrun
  | delSubregion mr sub => exact hI.delSubregion h hrun
  | setEnabled mr enabled =>
    simp only [Op.step, memoryRegionSetEnabled] at hrun
    split at hrun
    · exact Option.some.inj hrun ▸ ⟨h, hpending⟩
    · exact hI.commit hrun (hI.congr h rfl rfl rfl)
  | setAddress mr addr => exact hI.setAddress h hpending hrun
  | setAliasOffset mr offset =>
    simp only [Op.step, memoryRegionSetAliasOffset] at hrun
    split at hrun
    · cases hrun
    split at hrun
    · exact Option.some.inj hrun ▸ ⟨h, hpending⟩
    · exact hI.setAttribute h hrun
  | setReadonly mr readonly =>
    simp only [Op.step, memoryRegionSetReadonly] at hrun
    split at hrun
    · exact hI.setAttribute h hrun
    · exact Option.some.inj hrun ▸ ⟨h, hpending⟩
  | romDeviceSetRomd mr romdMode =>
    simp only [Op.step, memoryRegionRomDeviceSetRomd] at hrun
    split at hrun
    · exact hI.setAttribute h hrun
    · exact Option.some.inj hrun ▸ ⟨h, hpending⟩
  | setLog mr log client => exact hI.setAttribute h hrun
  | addressSpaceInit as root =>
    simp only [Op.step, Memory.addressSpaceInit] at hrun
    split at hrun
    · cases hrun
    · next hnew => exact hI.commit hrun (hI.congr (hI.init h hnew) rfl rfl rfl)
  | addressSpaceDestroy as =>
    simp only [Op.step, Memory.addressSpaceDestroy] at hrun
    split at hrun
    · cases hrun
    · obtain ⟨s₁, hcommit, rfl⟩ := Option.map_eq_some_iff.mp hrun
      obtain ⟨hs₁, hpending₁⟩ := hI.commit hcommit (hI.congr h rfl rfl rfl)
      exact ⟨hI.destroy hs₁ hallowed, hpending₁⟩

lemma run (h : I s) (hpending : NotPending s)
    (hrun : Run mayDestroy s s') : I s' ∧ NotPending s' := by
  induction hrun with
  | refl => exact ⟨h, hpending⟩
  | step _ hallowed hstep ih => exact hI.step ih.1 ih.2 hallowed hstep
end

end EventInvariant

lemma MapsValid.init {s : MemoryState} (h : MapsValid s) (as a : AsId) :
    (update s.currentMap as [] a).Valid := by
  by_cases heq : a = as
  · rw [heq, update_self]
    exact (ViewIn.nil 0 _).valid
  · rw [update_of_ne heq]
    exact h a

lemma mapsValid_eventInvariant (mayDestroy : AsId → Prop) : EventInvariant mayDestroy MapsValid where
  congr h _ hmaps _ := fun as => by
    rw [hmaps]
    exact h as
  update h hrun := h.updateTopology hrun
  init h _ := h.init _
  destroy h _ := h

lemma followed_eventInvariant {filter : Option AsId} {as : AsId} {past : List Event}
    (hlistens : Listens filter as) :
    EventInvariant (· ≠ as) fun s => MapsValid s ∧ Followed filter as past s where
  congr := by
    rintro s t ⟨hvalid, hregistered, hheld⟩ hspaces hmaps hevents
    refine ⟨fun a => ?_, ?_, ?_⟩
    · rw [hmaps]
      exact hvalid a
    · rwa [hspaces]
    · rwa [hevents, hmaps]
  update h hrun := ⟨h.1.updateTopology hrun, h.2.updateTopology hlistens h.1 hrun⟩
  init := by
    rintro s a ⟨hvalid, hregistered, hheld⟩ hnew
    have hne : as ≠ a := fun heq => hnew (heq ▸ hregistered)
    refine ⟨hvalid.init a, mem_append_left _ hregistered, ?_⟩
    change ∃ events, s.events = past ++ events ∧ List.Perm _
      ((update s.currentMap a [] as).map (·.toSection as))
    rwa [update_of_ne hne]
  destroy := by
    rintro s a ⟨hvalid, hregistered, hheld⟩ hne
    exact ⟨hvalid, (mem_erase_of_ne (Ne.symm hne)).mpr hregistered, hheld⟩

section
variable {s s' : MemoryState} {as : AsId} {fuel : Nat}

lemma followed_of_addressSpaceInit {filter : Option AsId} (hlistens : Listens filter as)
    (hvalid : MapsValid s) {root : Rid} (hrun : addressSpaceInit fuel as root s = some s') :
    (MapsValid s' ∧ Followed filter as s.events s') ∧ NotPending s' := by
  rw [addressSpaceInit] at hrun
  split at hrun
  · cases hrun
  refine (followed_eventInvariant hlistens).commit hrun ⟨hvalid.init as, ?_, [], ?_, ?_⟩
  · exact mem_append_right _ mem_cons_self
  · exact (append_nil _).symm
  · change List.Perm _ ((update s.currentMap as [] as).map (·.toSection as))
    rw [update_self]
    exact List.Perm.refl _

/-- Destroying an address space tells the listeners nothing: no update is pending when the
transaction starts, and its root being gone does not set it. -/
lemma addressSpaceDestroy_events (hpending : NotPending s)
    (hrun : addressSpaceDestroy fuel as s = some s') : s'.events = s.events := by
  rw [addressSpaceDestroy] at hrun
  split at hrun
  · cases hrun
  obtain ⟨s₁, hcommit, rfl⟩ := Option.map_eq_some_iff.mp hrun
  rcases commit_cases hcommit with ⟨hdepth, hflush, -, -⟩ | ⟨-, rfl⟩
  · cases (hpending (Nat.succ.inj hdepth)).symm.trans hflush
  · rfl
end

/-- For every run from its creation to its destruction, a listener that was registered
before has been told to delete every section of the address space exactly if the current map
is empty when `address_space_destroy` is called. -/
theorem balanced_iff_currentMap_eq_nil {regions : Regions} {s₀ s₁ s₂ s₃ : MemoryState} {as : AsId}
    {root : Rid} {fuel fuel' : Nat} {filter : Option AsId} (hlistens : Listens filter as)
    (hbefore : Run (fun _ => True) (MemoryState.initial regions) s₀)
    (hinit : addressSpaceInit fuel as root s₀ = some s₁) (hlife : Run (· ≠ as) s₁ s₂)
    (hdestroy : addressSpaceDestroy fuel' as s₂ = some s₃) :
    ∃ events, s₃.events = s₀.events ++ events ∧
      (heldOf filter as events = [] ↔ s₂.currentMap as = []) := by
  have hempty : MapsValid (MemoryState.initial regions) := fun _ => (ViewIn.nil 0 _).valid
  obtain ⟨hvalid, -⟩ := (mapsValid_eventInvariant _).run hempty (fun _ => rfl) hbefore
  obtain ⟨hfollowed, hpending⟩ := followed_of_addressSpaceInit hlistens hvalid hinit
  obtain ⟨⟨-, -, events, hevents, hheld⟩, hpending₂⟩ :=
    (followed_eventInvariant hlistens).run hfollowed hpending hlife
  refine ⟨events, (addressSpaceDestroy_events hpending₂ hdestroy).trans hevents, fun h => ?_,
    fun h => ?_⟩
  · rw [h] at hheld
    exact map_eq_nil_iff.mp hheld.nil_eq.symm
  · rw [h] at hheld
    exact hheld.eq_nil

/-- An address space with a disabled root lives and is destroyed without events. -/
theorem balanced_iff_currentMap_eq_nil_disabled :
    ∃ s events, [Op.setEnabled 0 false, .addressSpaceInit 0 0, .addressSpaceDestroy 0].foldlM
        (fun s op => Op.step 3 op s) (MemoryState.initial twoRegions) = some s ∧
      s.events = events ∧ heldOf none 0 events = [] := by
  let s₀ := ((Op.setEnabled 0 false).step 3 (MemoryState.initial twoRegions)).get (by decide)
  let s₁ := (addressSpaceInit 3 0 0 s₀).get (by decide)
  let s₃ := (addressSpaceDestroy 3 0 s₁).get (by decide)
  have hset : (Op.setEnabled 0 false).step 3 (MemoryState.initial twoRegions) = some s₀ :=
    (some_get _).symm
  have hinit : addressSpaceInit 3 0 0 s₀ = some s₁ := (some_get _).symm
  have hdestroy : addressSpaceDestroy 3 0 s₁ = some s₃ := (some_get _).symm
  obtain ⟨events, hevents, hiff⟩ := balanced_iff_currentMap_eq_nil (Or.inl rfl : Listens none 0)
    (Run.step .refl (show (Op.setEnabled 0 false).Allowed _ from trivial) hset) hinit .refl hdestroy
  exact ⟨s₃, events, foldlM_cons_eq_some.mpr ⟨s₀, hset, foldlM_cons_eq_some.mpr ⟨s₁, hinit,
    foldlM_cons_eq_some.mpr ⟨s₃, hdestroy, rfl⟩⟩⟩, hevents, hiff.mpr (by decide)⟩

/-- RAM that is still mapped when its address space is destroyed: the listener is told of the
section, and never that it is gone. -/
theorem unbalanced_after_addressSpaceDestroy :
    ∃ s, [Op.addressSpaceInit 0 0, .addressSpaceDestroy 0].foldlM
        (fun s op => Op.step 3 op s) (MemoryState.initial twoRegions) = some s ∧
      s.transactionDepth = 0 ∧ s.addressSpaces = [] ∧
      s.events = [⟨.regionAdd, ⟨0, 0, 0#64, 0x1000, 0#64, false⟩⟩] ∧
      heldOf none 0 s.events = [⟨0, 0, 0#64, 0x1000, 0#64, false⟩] := by
  let s := ([Op.addressSpaceInit 0 0, .addressSpaceDestroy 0].foldlM
    (fun s op => Op.step 3 op s) (MemoryState.initial twoRegions)).get (by decide)
  exact ⟨s, (some_get _).symm, by decide, by decide, by decide, by decide⟩

end QemuVmi.Memory
