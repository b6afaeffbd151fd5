import QemuVmi.Memory.Topology

/-!
# Telling the listeners

`address_space_update_topology_pass` walks over the old and the new flat view of an
address space at once. It runs twice: the first run deletes what is gone, the second one
adds what is new. A call of a listener is an `Event`. The order in which the listeners
get the same event (`Forward`, `Reverse`) is left out: a listener sees the events of an
address space in the order in which they stand here.

`updateTopologyPass_eq` says which events a pass has. A listener that holds the sections
that were added and not deleted then holds those of the new view (`holds_events`), and at
no time two that overlap.
-/

namespace QemuVmi.Memory

open SortedRanges List

/-- An `AddressSpace *`. -/
abbrev AsId := Nat

structure MemoryRegionSection where
  mr : Rid
  addressSpace : AsId
  offsetWithinRegion : HwAddr
  size : Int
  offsetWithinAddressSpace : HwAddr
  readonly : Bool
deriving DecidableEq, Repr

/-- The callbacks of a `MemoryListener` that an update of the topology calls. -/
inductive Callback
  | regionAdd
  | regionDel
  | regionNop
  | logStart
  | logStop
deriving DecidableEq, Repr

structure Event where
  callback : Callback
  sec : MemoryRegionSection
deriving DecidableEq, Repr

section
variable (as : AsId)

def memoryListenerUpdateRegion (callback : Callback) (fr : FlatRange) :
    Option (List Event) :=
  (int128Get64 fr.addr.start).map fun start =>
    [⟨callback, ⟨fr.mr, as, fr.offsetInRegion, fr.addr.size, start, fr.readonly⟩⟩]

/-- In old but not in new, or in both but attributes changed. -/
def onOld (adding : Bool) (frold : FlatRange) : Option (List Event) :=
  if !adding then memoryListenerUpdateRegion as .regionDel frold else some []

/-- In both and unchanged, except that logging may have changed. -/
def onBoth (adding : Bool) (frold frnew : FlatRange) : Option (List Event) :=
  if adding then do
    let nop ← memoryListenerUpdateRegion as .regionNop frnew
    let log ← if frold.dirtyLogMask ≠ 0#8 ∧ frnew.dirtyLogMask = 0#8 then
        memoryListenerUpdateRegion as .logStop frnew
      else if frnew.dirtyLogMask ≠ 0#8 ∧ frold.dirtyLogMask = 0#8 then
        memoryListenerUpdateRegion as .logStart frnew
      else some []
    return nop ++ log
  else some []

/-- In new. -/
def onNew (adding : Bool) (frnew : FlatRange) : Option (List Event) :=
  if adding then memoryListenerUpdateRegion as .regionAdd frnew else some []

/-- The loop of `address_space_update_topology_pass`, for the ranges of the old view from
`iold` on and those of the new view from `inew` on. -/
def updateTopologyLoop (as : AsId) (adding : Bool) : Nat → FlatView → FlatView → Option (List Event)
  | _, [], [] => some []
  | 0, _, _ => none
  | fuel + 1, frold :: old, [] => do
      return (← onOld as adding frold) ++ (← updateTopologyLoop as adding fuel old [])
  | fuel + 1, [], frnew :: new => do
      return (← onNew as adding frnew) ++ (← updateTopologyLoop as adding fuel [] new)
  | fuel + 1, frold :: old, frnew :: new =>
      if frold.addr.start < frnew.addr.start ∨
          (frold.addr.start = frnew.addr.start ∧ flatrangeEqual frold frnew = false) then do
        return (← onOld as adding frold) ++ (← updateTopologyLoop as adding fuel old (frnew :: new))
      else if flatrangeEqual frold frnew then do
        return (← onBoth as adding frold frnew) ++ (← updateTopologyLoop as adding fuel old new)
      else do
        return (← onNew as adding frnew) ++ (← updateTopologyLoop as adding fuel (frold :: old) new)

section
variable (old new : FlatView)

def addressSpaceUpdateTopologyPass (adding : Bool) : Option (List Event) :=
  updateTopologyLoop as adding (old.length + new.length) old new

/-- The two passes of `address_space_update_topology`. -/
def addressSpaceUpdateTopologyEvents : Option (List Event) := do
  return (← addressSpaceUpdateTopologyPass as old new false) ++
    (← addressSpaceUpdateTopologyPass as old new true)

def FlatRange.toSection (fr : FlatRange) (as : AsId) : MemoryRegionSection :=
  ⟨fr.mr, as, fr.offsetInRegion, fr.addr.size, BitVec.ofInt 64 fr.addr.start, fr.readonly⟩

/-- A flat view: the ranges are sorted by their start, pairwise disjoint and start at
64-bit addresses. -/
structure FlatView.Valid (view : FlatView) : Prop where
  sorted : view.Pairwise fun r s => r.addr.start < s.addr.start
  disjoint : view.Pairwise fun r s => ∀ a, ¬(r.addr.contains a = true ∧ s.addr.contains a = true)
  start : ∀ r ∈ view, 0 ≤ r.addr.start ∧ r.addr.start < 2 ^ 64

/-- `region_del` for each range of `old` with no equal range in `new`. -/
def delEvents : List Event :=
  (old.filter fun r => !new.any (flatrangeEqual r)).map fun r => ⟨.regionDel, r.toSection as⟩

/-- What the second pass has for a range of the new view: `region_add` if no range of `old`
is equal to it. If one is, `region_nop`, and `log_stop` or `log_start` as the mask goes to
zero or from zero. -/
def addEvents (old : FlatView) (r : FlatRange) : List Event :=
  match old.find? (flatrangeEqual · r) with
  | none => [⟨.regionAdd, r.toSection as⟩]
  | some prev =>
      ⟨.regionNop, r.toSection as⟩ ::
        if prev.dirtyLogMask ≠ 0#8 ∧ r.dirtyLogMask = 0#8 then [⟨.logStop, r.toSection as⟩]
        else if r.dirtyLogMask ≠ 0#8 ∧ prev.dirtyLogMask = 0#8 then [⟨.logStart, r.toSection as⟩]
        else []

def passEvents (adding : Bool) : List Event :=
  if adding then new.flatMap (addEvents as old) else delEvents as old new
end

end

variable {r s : FlatRange}

lemma flatrangeEqual_start (h : flatrangeEqual r s = true) : r.addr.start = s.addr.start := by
  simp only [flatrangeEqual, Bool.and_eq_true, beq_iff_eq] at h
  rw [h.1.1.1.2]

lemma flatrangeEqual_toSection (h : flatrangeEqual r s = true) (as : AsId) :
    r.toSection as = s.toSection as := by
  simp only [flatrangeEqual, Bool.and_eq_true, beq_iff_eq] at h
  obtain ⟨⟨⟨⟨hmr, haddr⟩, hoffset⟩, _⟩, hreadonly⟩ := h
  simp only [FlatRange.toSection, hmr, haddr, hoffset, hreadonly]

section
variable {as : AsId} {r o n : FlatRange} {old new : FlatView} {adding : Bool}

lemma updateRegion_eq (hstart : 0 ≤ r.addr.start ∧ r.addr.start < 2 ^ 64) (callback : Callback) :
    memoryListenerUpdateRegion as callback r = some [⟨callback, r.toSection as⟩] := by
  rw [memoryListenerUpdateRegion, int128Get64, if_pos hstart]
  rfl

lemma passEvents_old (hstart : 0 ≤ o.addr.start ∧ o.addr.start < 2 ^ 64)
    (habsent : ∀ n ∈ new, flatrangeEqual o n = false) : ∃ events, onOld as adding o = some events ∧
      passEvents as (o :: old) new adding = events ++ passEvents as old new adding := by
  have hany : new.any (flatrangeEqual o) = false := by simpa using habsent
  cases adding with
  | false =>
    refine ⟨_, updateRegion_eq hstart .regionDel, ?_⟩
    simp [passEvents, delEvents, hany]
  | true =>
    refine ⟨[], rfl, ?_⟩
    simp only [passEvents, if_true, nil_append]
    refine flatMap_congr fun n hn => ?_
    rw [addEvents, List.find?_cons_of_neg (by simp [habsent n hn]), addEvents]

lemma passEvents_new (hstart : 0 ≤ n.addr.start ∧ n.addr.start < 2 ^ 64)
    (habsent : ∀ o ∈ old, flatrangeEqual o n = false) : ∃ events, onNew as adding n = some events ∧
      passEvents as old (n :: new) adding = events ++ passEvents as old new adding := by
  cases adding with
  | false =>
    refine ⟨[], rfl, ?_⟩
    simp only [passEvents, delEvents, Bool.false_eq_true, if_false, nil_append]
    congr 1
    refine filter_congr fun o ho => ?_
    rw [any_cons, habsent o ho, Bool.false_or]
  | true =>
    refine ⟨_, updateRegion_eq hstart .regionAdd, ?_⟩
    have hfind : old.find? (flatrangeEqual · n) = none := by
      simpa [List.find?_eq_none] using habsent
    simp only [passEvents, if_true, flatMap_cons]
    rw [addEvents, hfind]

lemma passEvents_both (hstart : 0 ≤ n.addr.start ∧ n.addr.start < 2 ^ 64)
    (heq : flatrangeEqual o n = true) (hold : ∀ o' ∈ old, flatrangeEqual o' n = false)
    (hnew : ∀ n' ∈ new, flatrangeEqual o n' = false) :
    ∃ events, onBoth as adding o n = some events ∧
      passEvents as (o :: old) (n :: new) adding = events ++ passEvents as old new adding := by
  cases adding with
  | false =>
    refine ⟨[], rfl, ?_⟩
    have hkept : ∀ o' ∈ old, (n :: new).any (flatrangeEqual o') = new.any (flatrangeEqual o') := by
      intro o' ho'
      rw [any_cons, hold o' ho', Bool.false_or]
    simp only [passEvents, delEvents, Bool.false_eq_true, if_false, nil_append]
    rw [filter_cons_of_neg (by simp [heq]), filter_congr fun o' ho' => by rw [hkept o' ho']]
  | true =>
    refine ⟨addEvents as (o :: old) n, ?_, ?_⟩
    · have hfind : (o :: old).find? (flatrangeEqual · n) = some o := List.find?_cons_of_pos heq
      rw [addEvents, hfind, onBoth]
      simp only [updateRegion_eq hstart, if_true]
      split
      · rfl
      · split <;> rfl
    · simp only [passEvents, if_true, flatMap_cons]
      congr 1
      refine flatMap_congr fun n' hn' => ?_
      rw [addEvents, List.find?_cons_of_neg (by simp [hnew n' hn']), addEvents]

lemma FlatView.Valid.tail (h : FlatView.Valid (r :: old)) : FlatView.Valid old :=
  ⟨h.sorted.of_cons, h.disjoint.of_cons, fun s hs => h.start s (mem_cons_of_mem r hs)⟩

lemma ViewIn.valid (h : ViewIn 0 (2 ^ 64) old) : old.Valid := by
  have hne : ∀ r ∈ old, r.lo < r.hi := fun r hr => h.sorted.lo_lt_hi hr
  refine ⟨?_, ?_, fun r hr => ⟨h.sorted.le_lo hr, (hne r hr).trans_le (h.le r hr)⟩⟩
  · refine h.sorted.pairwise.imp_of_mem fun {r s} hr _ hle => ?_
    exact (hne r hr).trans_le hle
  refine h.sorted.pairwise.imp fun {r s} hle a ha => ?_
  rw [AddrRange.contains_iff, AddrRange.contains_iff] at ha
  simp only [FlatRange.hi, FlatRange.lo] at hle
  omega

lemma flatrangeEqual_eq_false (h : r.addr.start ≠ o.addr.start) : flatrangeEqual r o = false :=
  Bool.eq_false_iff.mpr fun heq => h (flatrangeEqual_start heq)

/-- The loop has the events of the pass, by induction on what is left of the two views. -/
lemma updateTopologyLoop_eq {fuel : Nat} (hold : old.Valid) (hnew : new.Valid)
    (hfuel : old.length + new.length ≤ fuel) :
    updateTopologyLoop as adding fuel old new = some (passEvents as old new adding) := by
  induction fuel generalizing old new with
  | zero =>
    obtain rfl := length_eq_zero_iff.mp (show old.length = 0 by omega)
    obtain rfl := length_eq_zero_iff.mp (show new.length = 0 by omega)
    cases adding <;> rfl
  | succ fuel ih =>
    match old, new with
    | [], [] => cases adding <;> rfl
    | o :: old, [] =>
      obtain ⟨events, hrun, heq⟩ := @passEvents_old as o old [] adding
        (hold.start o mem_cons_self) nofun
      simp only [length_cons] at hfuel
      rw [updateTopologyLoop, hrun, ih hold.tail hnew (by simpa using by omega), heq]
      rfl
    | [], n :: new =>
      obtain ⟨events, hrun, heq⟩ := @passEvents_new as n [] new adding
        (hnew.start n mem_cons_self) nofun
      simp only [length_cons] at hfuel
      rw [updateTopologyLoop, hrun, ih hold hnew.tail (by simpa using by omega), heq]
      rfl
    | o :: old, n :: new =>
      have hafter := (pairwise_cons.mp hold.sorted).1
      have hafter' := (pairwise_cons.mp hnew.sorted).1
      simp only [length_cons] at hfuel
      rw [updateTopologyLoop]
      split
      · next hfirst =>
        have habsent : ∀ n' ∈ n :: new, flatrangeEqual o n' = false := by
          intro n' hn'
          rcases mem_cons.mp hn' with rfl | hn'
          · rcases hfirst with hlt | ⟨_, hne⟩
            · exact flatrangeEqual_eq_false (by omega)
            · exact hne
          · have := hafter' n' hn'
            exact flatrangeEqual_eq_false (by omega)
        obtain ⟨events, hrun, heq⟩ := @passEvents_old as o old (n :: new) adding
          (hold.start o mem_cons_self) habsent
        rw [hrun, ih hold.tail hnew (by simp only [length_cons]; omega), heq]
        rfl
      split
      · next heq =>
        have hsame := flatrangeEqual_start heq
        obtain ⟨events, hrun, heq⟩ := @passEvents_both as o n old new adding
          (hnew.start n mem_cons_self) heq
          (fun o' ho' => flatrangeEqual_eq_false (by have := hafter o' ho'; omega))
          (fun n' hn' => flatrangeEqual_eq_false (by have := hafter' n' hn'; omega))
        rw [hrun, ih hold.tail hnew.tail (by omega), heq]
        rfl
      · next hfirst hne =>
        -- the range of the old view starts behind the one of the new view
        have hlt : n.addr.start < o.addr.start := by
          simp only [not_or, not_and, Bool.not_eq_false] at hfirst
          have : o.addr.start ≠ n.addr.start := fun h => hne (hfirst.2 h)
          omega
        have habsent : ∀ o' ∈ o :: old, flatrangeEqual o' n = false := by
          intro o' ho'
          rcases mem_cons.mp ho' with rfl | ho'
          · exact flatrangeEqual_eq_false (by omega)
          · have := hafter o' ho'
            exact flatrangeEqual_eq_false (by omega)
        obtain ⟨events, hrun, heq⟩ := @passEvents_new as n (o :: old) new adding
          (hnew.start n mem_cons_self) habsent
        rw [hrun, ih hold hnew.tail (by simp only [length_cons]; omega), heq]
        rfl

lemma updateTopologyEvents_eq (hold : old.Valid) (hnew : new.Valid) :
    addressSpaceUpdateTopologyEvents as old new =
      some (delEvents as old new ++ new.flatMap (addEvents as old)) := by
  simp only [addressSpaceUpdateTopologyEvents, addressSpaceUpdateTopologyPass,
    updateTopologyLoop_eq hold hnew le_rfl]
  rfl
end

def hold (held : List MemoryRegionSection) (e : Event) : List MemoryRegionSection :=
  match e.callback with
  | .regionAdd => e.sec :: held
  | .regionDel => held.erase e.sec
  | .regionNop | .logStart | .logStop => held

def MemoryRegionSection.Contains (s : MemoryRegionSection) (a : Int) : Prop :=
  s.offsetWithinAddressSpace.toNat ≤ a ∧ a < s.offsetWithinAddressSpace.toNat + s.size

def MemoryRegionSection.Disjoint (s t : MemoryRegionSection) : Prop :=
  ∀ a, ¬(s.Contains a ∧ t.Contains a)

lemma MemoryRegionSection.Disjoint.symm {s t : MemoryRegionSection} (h : s.Disjoint t) :
    t.Disjoint s :=
  fun a ha => h a ha.symm

section
variable {as : AsId} {old new : FlatView} {held : List MemoryRegionSection}

lemma toNat_ofInt_of_mem {x : Int} (h : 0 ≤ x ∧ x < 2 ^ 64) : ((BitVec.ofInt 64 x).toNat : Int) = x := by
  rw [BitVec.toNat_ofInt]
  omega

lemma toSection_contains (hstart : 0 ≤ r.addr.start ∧ r.addr.start < 2 ^ 64)
    (a : Int) : (r.toSection as).Contains a ↔ r.addr.contains a = true := by
  rw [MemoryRegionSection.Contains, FlatRange.toSection, toNat_ofInt_of_mem hstart,
    AddrRange.contains_iff, AddrRange.endAddr]

lemma FlatView.Valid.disjoint_sections (h : old.Valid) :
    (old.map (·.toSection as)).Pairwise MemoryRegionSection.Disjoint := by
  rw [pairwise_map]
  refine h.disjoint.imp_of_mem fun hr hs hdisjoint a ha => hdisjoint a ?_
  rwa [← toSection_contains (h.start _ hr), ← toSection_contains (h.start _ hs)]

lemma FlatView.Valid.nodup_sections (h : old.Valid) : (old.map (·.toSection as)).Nodup := by
  rw [List.Nodup, pairwise_map]
  refine h.sorted.imp_of_mem fun {r s} hr hs hlt heq => ?_
  have hstart := congrArg (fun t => (t.offsetWithinAddressSpace.toNat : Int)) heq
  simp only [FlatRange.toSection, toNat_ofInt_of_mem (h.start _ hr),
    toNat_ofInt_of_mem (h.start _ hs)] at hstart
  omega

lemma FlatView.Valid.disjoint_of_subperm (h : old.Valid)
    (hsub : List.Subperm held (old.map (·.toSection as))) :
    held.Pairwise MemoryRegionSection.Disjoint := by
  obtain ⟨part, hperm, hpart⟩ := hsub
  exact (hperm.pairwise_iff MemoryRegionSection.Disjoint.symm).mp (h.disjoint_sections.sublist hpart)

lemma foldl_hold_del (ds held : List MemoryRegionSection) :
    (ds.map (Event.mk .regionDel)).foldl hold held = held.diff ds := by
  rw [foldl_map, diff_eq_foldl]
  rfl

def Event.added (e : Event) : Option MemoryRegionSection :=
  if e.callback = .regionAdd then some e.sec else none

lemma foldl_hold_add {events : List Event} (hdel : ∀ e ∈ events, e.callback ≠ .regionDel)
    (held : List MemoryRegionSection) :
    (events.foldl hold held).Perm (held ++ events.filterMap Event.added) := by
  induction events generalizing held with
  | nil => rw [filterMap_nil, append_nil, foldl_nil]
  | cons e es ih =>
    have hrest := ih (fun e he => hdel e (mem_cons_of_mem _ he))
    obtain ⟨callback, sec⟩ := e
    have hcallback := hdel _ mem_cons_self
    cases callback with
    | regionAdd =>
      refine (hrest (sec :: held)).trans ?_
      exact perm_middle.symm
    | regionDel => exact absurd rfl hcallback
    | regionNop | logStart | logStop => exact hrest held

lemma addEvents_added (old new : FlatView) (as : AsId) :
    (new.flatMap (addEvents as old)).filterMap Event.added =
      (new.filter fun n => !old.any (flatrangeEqual · n)).map (·.toSection as) := by
  induction new with
  | nil => rfl
  | cons n new ih =>
    rw [flatMap_cons, filterMap_append, ih]
    cases hfind : old.find? (flatrangeEqual · n) with
    | none =>
      have hany : old.any (flatrangeEqual · n) = false := by simpa [List.find?_eq_none] using hfind
      simp [addEvents, hfind, hany, Event.added]
    | some o =>
      have hany : old.any (flatrangeEqual · n) = true :=
        any_eq_true.mpr ⟨o, mem_of_find?_eq_some hfind,
          @List.find?_some _ (flatrangeEqual · n) _ _ hfind⟩
      rw [filter_cons_of_neg (by simp [hany])]
      simp only [addEvents, hfind]
      split
      · rfl
      · split <;> rfl

lemma addEvents_ne_del (old new : FlatView) (as : AsId) :
    ∀ e ∈ new.flatMap (addEvents as old), e.callback ≠ .regionDel := by
  intro e he
  obtain ⟨n, -, hn⟩ := mem_flatMap.mp he
  rw [addEvents] at hn
  split at hn
  · obtain rfl := mem_singleton.mp hn
    nofun
  rcases mem_cons.mp hn with rfl | hn
  · nofun
  split at hn
  · obtain rfl := mem_singleton.mp hn
    nofun
  split at hn
  · obtain rfl := mem_singleton.mp hn
    nofun
  · cases hn

lemma kept_perm (hold : old.Valid) (hnew : new.Valid) :
    ((old.filter fun o => new.any (flatrangeEqual o)).map (·.toSection as)).Perm
      ((new.filter fun n => old.any (flatrangeEqual · n)).map (·.toSection as)) := by
  refine (perm_ext_iff_of_nodup (hold.nodup_sections.sublist (filter_sublist.map _))
    (hnew.nodup_sections.sublist (filter_sublist.map _))).mpr fun s => ?_
  simp only [mem_map, mem_filter, any_eq_true]
  constructor
  · rintro ⟨o, ⟨ho, n, hn, heq⟩, rfl⟩
    exact ⟨n, ⟨hn, o, ho, heq⟩, (flatrangeEqual_toSection heq as).symm⟩
  · rintro ⟨n, ⟨hn, o, ho, heq⟩, rfl⟩
    exact ⟨o, ⟨ho, n, hn, heq⟩, flatrangeEqual_toSection heq as⟩

lemma map_filter_not_append (view : FlatView) (p : FlatRange → Bool) (as : AsId) :
    ((view.filter fun r => !p r).map (·.toSection as) ++
      (view.filter p).map (·.toSection as)).Perm (view.map (·.toSection as)) := by
  rw [← map_append]
  exact (perm_append_comm.trans (filter_append_perm p view)).map _

lemma append_diff_left (xs ys : List MemoryRegionSection) : (xs ++ ys).diff xs = ys := by
  induction xs with
  | nil => rfl
  | cons x xs ih => rw [cons_append, diff_cons, erase_cons_head, ih]

lemma delEvents_eq (as : AsId) (old new : FlatView) : delEvents as old new =
    ((old.filter fun r => !new.any (flatrangeEqual r)).map (·.toSection as)).map
      (Event.mk .regionDel) := by
  rw [delEvents, map_map]
  rfl

variable (hold : old.Valid) (hnew : new.Valid) (hheld : held.Perm (old.map (·.toSection as)))

include hold hnew hheld in
lemma foldl_hold_delEvents : ((delEvents as old new).foldl Memory.hold held).Perm
      ((new.filter fun n => old.any (flatrangeEqual · n)).map (·.toSection as)) := by
  have hsplit := map_filter_not_append old (fun o => new.any (flatrangeEqual o)) as
  rw [delEvents_eq, foldl_hold_del]
  refine ((hheld.trans hsplit.symm).diff_right _).trans ?_
  rw [append_diff_left]
  exact kept_perm hold hnew

include hold hnew hheld in
lemma holds_events :
    ((delEvents as old new ++ new.flatMap (addEvents as old)).foldl Memory.hold held).Perm
      (new.map (·.toSection as)) := by
  rw [foldl_append]
  refine (foldl_hold_add (addEvents_ne_del old new as) _).trans ?_
  rw [addEvents_added]
  refine ((foldl_hold_delEvents hold hnew hheld).append_right _).trans ?_
  exact perm_append_comm.trans (map_filter_not_append new (fun n => old.any (flatrangeEqual · n)) as)

include hold hnew hheld in
lemma disjoint_events (k : Nat) :
    (((delEvents as old new ++ new.flatMap (addEvents as old)).take k).foldl Memory.hold held).Pairwise
      MemoryRegionSection.Disjoint := by
  rw [take_append, foldl_append]
  rcases Nat.lt_or_ge (delEvents as old new).length k with hk | hk
  · -- the second pass: a part of the sections of the new view
    rw [take_of_length_le hk.le]
    have hadd := foldl_hold_add (fun e he => addEvents_ne_del old new as e
      (mem_of_mem_take (i := k - (delEvents as old new).length) he))
      ((delEvents as old new).foldl Memory.hold held)
    refine @FlatView.Valid.disjoint_of_subperm as _ _ hnew (hadd.subperm.trans ?_)
    have hpart : (((new.flatMap (addEvents as old)).take
        (k - (delEvents as old new).length)).filterMap Event.added).Sublist
        ((new.filter fun n => !old.any (flatrangeEqual · n)).map (·.toSection as)) := by
      rw [← addEvents_added]
      exact (take_sublist _ _).filterMap _
    refine ((foldl_hold_delEvents hold hnew hheld).append_right _).subperm.trans ?_
    refine ((List.Sublist.refl _).append hpart).subperm.trans ?_
    exact (perm_append_comm.trans
      (map_filter_not_append new (fun n => old.any (flatrangeEqual · n)) as)).subperm
  · -- the first pass: a part of the sections of the old view
    rw [Nat.sub_eq_zero_of_le hk, take_zero, foldl_nil]
    refine @FlatView.Valid.disjoint_of_subperm as _ _ hold ?_
    rw [delEvents_eq, ← map_take, foldl_hold_del]
    exact (diff_sublist _ _).subperm.trans hheld.subperm
end

/-- For any two flat views, the two passes have `region_del` for exactly the ranges of the
old view with no equal range in the new one, and then, range by range of the new view,
`region_add` if the old view has no equal range, and otherwise `region_nop` with
`log_stop` or `log_start` as the mask becomes zero or nonzero. A listener that held the
sections of the old view holds those of the new one afterwards, and after no event two
that overlap. -/
theorem addressSpaceUpdateTopology_exact {old new : FlatView} (hold : old.Valid) (hnew : new.Valid)
    (as : AsId) :
    ∃ events, addressSpaceUpdateTopologyEvents as old new = some events ∧
      events = delEvents as old new ++ new.flatMap (addEvents as old) ∧
      ∀ held : List MemoryRegionSection, held.Perm (old.map (·.toSection as)) →
        (events.foldl Memory.hold held).Perm (new.map (·.toSection as)) ∧
        ∀ k, ((events.take k).foldl Memory.hold held).Pairwise MemoryRegionSection.Disjoint :=
  ⟨_, updateTopologyEvents_eq hold hnew, rfl, fun _ hheld =>
    ⟨holds_events hold hnew hheld, disjoint_events hold hnew hheld⟩⟩

/-- A range that grows over the start of its neighbour: both are deleted, and the new ranges
are added. The range that only starts to be logged stays. -/
theorem addressSpaceUpdateTopology_exact_grown : addressSpaceUpdateTopologyEvents 0
        [⟨1, 0#64, ⟨0, 4⟩, 0#8, true, false⟩, ⟨2, 0#64, ⟨4, 4⟩, 0#8, true, false⟩,
          ⟨3, 0#64, ⟨8, 4⟩, 0#8, true, false⟩]
        [⟨1, 0#64, ⟨0, 6⟩, 0#8, true, false⟩, ⟨2, 2#64, ⟨6, 2⟩, 0#8, true, false⟩,
          ⟨3, 0#64, ⟨8, 4⟩, 1#8, true, false⟩] =
      some [⟨.regionDel, ⟨1, 0, 0#64, 4, 0#64, false⟩⟩, ⟨.regionDel, ⟨2, 0, 0#64, 4, 4#64, false⟩⟩,
        ⟨.regionAdd, ⟨1, 0, 0#64, 6, 0#64, false⟩⟩, ⟨.regionAdd, ⟨2, 0, 2#64, 2, 6#64, false⟩⟩,
        ⟨.regionNop, ⟨3, 0, 0#64, 4, 8#64, false⟩⟩, ⟨.logStart, ⟨3, 0, 0#64, 4, 8#64, false⟩⟩] := by
  obtain ⟨events, hrun, rfl, -⟩ := @addressSpaceUpdateTopology_exact
    [⟨1, 0#64, ⟨0, 4⟩, 0#8, true, false⟩, ⟨2, 0#64, ⟨4, 4⟩, 0#8, true, false⟩,
      ⟨3, 0#64, ⟨8, 4⟩, 0#8, true, false⟩]
    [⟨1, 0#64, ⟨0, 6⟩, 0#8, true, false⟩, ⟨2, 2#64, ⟨6, 2⟩, 0#8, true, false⟩,
      ⟨3, 0#64, ⟨8, 4⟩, 1#8, true, false⟩]
    (ViewIn.valid ⟨by decide, by decide⟩)
    (ViewIn.valid ⟨by decide, by decide⟩) 0
  rw [hrun]
  decide

end QemuVmi.Memory
