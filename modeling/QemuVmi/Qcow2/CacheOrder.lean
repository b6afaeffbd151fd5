import QemuVmi.Lib.OptionFold
import QemuVmi.Qcow2.Cache

/-!
# Order of the writes of the metadata caches

A table of a cache is written only after the tables that were dirty in the other cache when the
dependency was set, and after a flush of the file behind them.

Results:
1. `Inv.move`: a move keeps what is still to be written under the dependency that says so.
2. `tables_written_in_order`: so it is in every run, and no flush is without an end.
-/

namespace QemuVmi.Qcow2.Caches

open Option List

variable {α : Type} {s s' : Caches α} {c d : CacheId} {i x : Nat}

def Acyclic (s : Caches α) : Prop :=
  ∀ c d, (s.cache c).depends = some d → d = c.other ∧ (s.cache d).depends = none

def Settled (c : CacheId) (offset : Nat) (log : List CacheEvent) : Prop :=
  ∃ after before, log = after ++ .flush :: before ∧ .write c offset ∈ before

/-- The tables that were dirty when a dependency of `c` was set are settled. -/
def Paid (c : CacheId) (log : List CacheEvent) : Prop :=
  ∀ since dirty before, log = since ++ .depend c dirty :: before →
    ∀ x ∈ dirty, Settled c.other x since

def Ordered (log : List CacheEvent) : Prop :=
  ∀ after c offset before, log = after ++ .write c offset :: before → Paid c before

/-- What is not paid is dirty, or written but not yet flushed, and the dependency is still set. -/
structure Inv (s : Caches α) : Prop where
  acyclic : s.Acyclic
  ordered : Ordered s.log
  owed : ∀ c since dirty before, s.log = since ++ .depend c dirty :: before → ∀ x ∈ dirty,
    Settled c.other x since ∨ (s.cache c).depends = some c.other ∧
      (.write c.other x ∈ since ∨ x ∈ s.dirtyOffsets c.other)

def run (s : Caches α) (ops : List (CacheOp α)) : Option (Caches α) :=
  ops.foldlM (fun s op => (s.step op).map Prod.snd) s

variable {log : List CacheEvent}

lemma Settled.cons (h : Settled c x log) (e : CacheEvent) : Settled c x (e :: log) := by
  obtain ⟨after, before, rfl, hwrite⟩ := h
  exact ⟨e :: after, before, rfl, hwrite⟩

lemma Settled.of_flush (h : .write c x ∈ log) : Settled c x (.flush :: log) :=
  ⟨[], log, rfl, h⟩

lemma Ordered.cons {e : CacheEvent} (h : Ordered log)
    (he : ∀ c offset, e = .write c offset → Paid c log) : Ordered (e :: log) := by
  intro after c offset before heq
  cases after with
  | nil =>
    cases heq
    exact he c offset rfl
  | cons e' after =>
    cases heq
    exact h after c offset before rfl

lemma mem_dirtyOffsets : x ∈ s.dirtyOffsets c ↔
    ∃ i < (s.cache c).size, (s.entry c i).dirty = true ∧ (s.entry c i).offset = x ∧ x ≠ 0 := by
  simp only [dirtyOffsets, List.mem_map, List.mem_filter, List.mem_range, Bool.and_eq_true,
    bne_iff_ne, ne_eq]
  constructor
  · rintro ⟨i, ⟨hi, hdirty, hoffset⟩, rfl⟩
    exact ⟨i, hi, hdirty, rfl, hoffset⟩
  · rintro ⟨i, hi, hdirty, rfl, hoffset⟩
    exact ⟨i, ⟨hi, hdirty, hoffset⟩, rfl⟩

lemma dirtyOffsets_setEntry {e : CachedTable α}
    (hkeep : (s.entry c i).dirty = true → (s.entry c i).offset ≠ 0 →
      e.dirty = true ∧ e.offset = (s.entry c i).offset) (hx : x ∈ s.dirtyOffsets d) :
    x ∈ (s.setEntry c i e).dirtyOffsets d := by
  obtain ⟨j, hj, hdirty, hoffset, hne⟩ := mem_dirtyOffsets.mp hx
  refine mem_dirtyOffsets.mpr ⟨j, by rwa [size_setEntry], ?_⟩
  by_cases heq : d = c ∧ j = i
  · obtain ⟨rfl, rfl⟩ := heq
    rw [entry_setEntry_same]
    obtain ⟨hdirty', hoffset'⟩ := hkeep hdirty (hoffset.symm ▸ hne)
    exact ⟨hdirty', hoffset'.trans hoffset, hne⟩
  · rw [entry_setEntry_of_ne s heq]
    exact ⟨hdirty, hoffset, hne⟩

lemma dirtyOffsets_setCache {cache : Cache α} (hentries : cache.entries = (s.cache c).entries)
    (hsize : cache.size = (s.cache c).size) :
    (s.setCache c cache).dirtyOffsets d = s.dirtyOffsets d := by
  simp only [dirtyOffsets, s.size_setCache hsize, s.entry_setCache hentries]

lemma Inv.of_same (h : s.Inv) (hlog : s'.log = s.log)
    (hdepends : ∀ c, (s'.cache c).depends = (s.cache c).depends)
    (hdirty : ∀ c x, x ∈ s.dirtyOffsets c → x ∈ s'.dirtyOffsets c) : s'.Inv where
  acyclic c d hd := by
    rw [hdepends] at hd ⊢
    exact h.acyclic c d hd
  ordered := hlog ▸ h.ordered
  owed c since dirty before heq x hx := by
    rw [hlog] at heq
    rw [hdepends]
    rcases h.owed c since dirty before heq x hx with hsettled | ⟨hdep, hwrite | hstill⟩
    · exact .inl hsettled
    · exact .inr ⟨hdep, .inl hwrite⟩
    · exact .inr ⟨hdep, .inr (hdirty c.other x hstill)⟩

lemma Inv.setEntry {e : CachedTable α} (h : s.Inv)
    (hkeep : (s.entry c i).dirty = true → (s.entry c i).offset ≠ 0 →
      e.dirty = true ∧ e.offset = (s.entry c i).offset) : (s.setEntry c i e).Inv :=
  h.of_same rfl (fun _ => s.depends_setEntry) fun _ _ => dirtyOffsets_setEntry hkeep

lemma Inv.setFlag (h : s.Inv) (c : CacheId) (flag : Bool) :
    (s.setCache c { s.cache c with dependsOnFlush := flag }).Inv := by
  refine h.of_same rfl (fun d => ?_) fun d x hx => by rwa [dirtyOffsets_setCache (by rfl) (by rfl)]
  by_cases hd : d = c
  · subst hd
    rw [cache_setCache_same]
  · rw [cache_setCache_of_ne s hd]

lemma Inv.paid (h : s.Inv) (hdepends : (s.cache c).depends = none) : Paid c s.log := by
  intro since dirty before heq x hx
  rcases h.owed c since dirty before heq x hx with hsettled | ⟨hdep, _⟩
  · exact hsettled
  · rw [hdepends] at hdep
    cases hdep

lemma Inv.flushMove (h : s.Inv) (hmove : FlushMove s s') : s'.Inv := by
  cases hmove with
  | request => exact h.of_same rfl (fun _ => rfl) fun _ _ hx => hx
  | flush =>
    refine ⟨h.acyclic, h.ordered.cons (fun _ _ he => by cases he), ?_⟩
    intro c since dirty before heq x hx
    cases since with
    | nil => cases heq
    | cons e since =>
      obtain ⟨rfl, hrest⟩ := List.cons.inj heq
      rcases h.owed c since dirty before hrest x hx with hsettled | ⟨hdep, hwrite | hstill⟩
      · exact .inl (hsettled.cons _)
      · exact .inl (.of_flush hwrite)
      · exact .inr ⟨hdep, .inr hstill⟩
  | write c i hi hdepends hoffset =>
    have hdep : ∀ d, ((s.written c i).cache d).depends = (s.cache d).depends := fun _ =>
      s.depends_setEntry
    refine ⟨fun d d' hd => ?_, h.ordered.cons fun _ _ he => ?_, ?_⟩
    · rw [hdep] at hd ⊢
      exact h.acyclic d d' hd
    · cases he
      exact h.paid hdepends
    intro d since dirty before heq x hx
    rw [hdep]
    cases since with
    | nil => cases heq
    | cons e since =>
      obtain ⟨rfl, hrest⟩ := List.cons.inj heq
      rcases h.owed d since dirty before hrest x hx with hsettled | ⟨hd, hwrite | hstill⟩
      · exact .inl (hsettled.cons _)
      · exact .inr ⟨hd, .inl (mem_cons_of_mem _ hwrite)⟩
      -- the table that has just been written, or one that is dirty as before
      obtain ⟨j, hj, hdirty, hjx, hne⟩ := mem_dirtyOffsets.mp hstill
      by_cases heq : d.other = c ∧ j = i
      · obtain ⟨rfl, rfl⟩ := heq
        rw [hjx]
        exact .inr ⟨hd, .inl mem_cons_self⟩
      refine .inr ⟨hd, .inr (mem_dirtyOffsets.mpr ⟨j, ?_, ?_⟩)⟩
      · exact (s.size_setEntry).symm ▸ hj
      · rw [entry_written_of_ne s heq]
        exact ⟨hdirty, hjx, hne⟩
  | clearFlag c => exact h.setFlag c false
  | clearDepends c d hd hclean hlog =>
    obtain ⟨log, hlog⟩ := hlog
    have hother : d = c.other := (h.acyclic c d hd).1
    refine ⟨fun c' d' hd' => ?_, h.ordered, fun c' since dirty before heq x hx => ?_⟩
    · by_cases hc : c' = c
      · subst hc
        rw [cache_setCache_same] at hd'
        cases hd'
      · rw [cache_setCache_of_ne s hc] at hd'
        -- the other cache depends on nothing, as long as this one depends on it
        have hnone := (h.acyclic c d hd).2
        cases c <;> cases c' <;> simp_all [CacheId.other]
    · by_cases hc : c' = c
      · subst hc
        left
        rcases h.owed c' since dirty before heq x hx with hsettled | ⟨_, hwrite | hstill⟩
        · exact hsettled
        · cases since with
          | nil => cases hwrite
          | cons e since =>
            have hfirst : e = .flush := (List.cons.inj (heq.symm.trans hlog)).1
            subst hfirst
            rcases List.mem_cons.mp hwrite with hno | hwrite
            · cases hno
            · exact .of_flush hwrite
        · obtain ⟨j, hj, hdirty, hoffset, hne⟩ := mem_dirtyOffsets.mp hstill
          rw [← hother] at hj hdirty hoffset
          exact absurd (hoffset ▸ hclean j hj hdirty) hne
      · rw [cache_setCache_of_ne s hc, dirtyOffsets_setCache (by rfl) (by rfl)]
        exact h.owed c' since dirty before heq x hx

lemma CacheId.other_ne (c : CacheId) : c.other ≠ c := by cases c <;> exact CacheId.noConfusion

lemma CacheId.eq_other_of_ne (h : d ≠ c) : d = c.other := by
  cases c <;> cases d <;> first | rfl | exact absurd rfl h

lemma Inv.depend (h : s.Inv) (hother : (s.cache c.other).depends = none)
    (hthis : (s.cache c).depends = none ∨ (s.cache c).depends = some c.other) :
    Inv { s.setCache c { s.cache c with depends := some c.other } with
      log := .depend c (s.dirtyOffsets c.other) :: s.log } := by
  have hdirty : ∀ d, (s.setCache c { s.cache c with depends := some c.other }).dirtyOffsets d =
      s.dirtyOffsets d := fun d => dirtyOffsets_setCache (by rfl) (by rfl)
  refine ⟨fun c' d hd => ?_, h.ordered.cons (fun _ _ he => by cases he), ?_⟩
  · by_cases hc : c' = c
    · subst hc
      change ((s.setCache c' _).cache c').depends = some d at hd
      rw [cache_setCache_same] at hd
      cases hd
      refine ⟨rfl, ?_⟩
      change ((s.setCache c' _).cache c'.other).depends = none
      rwa [cache_setCache_of_ne s (CacheId.other_ne c')]
    · change ((s.setCache c _).cache c').depends = some d at hd
      rw [cache_setCache_of_ne s hc, CacheId.eq_other_of_ne hc, hother] at hd
      cases hd
  · intro c' since dirty before heq x hx
    change _ ∨ ((s.setCache c _).cache c').depends = some c'.other ∧ (_ ∨
      x ∈ (s.setCache c _).dirtyOffsets c'.other)
    rw [hdirty]
    cases since with
    | nil =>
      cases heq
      rw [cache_setCache_same]
      exact .inr ⟨rfl, .inr hx⟩
    | cons e since =>
      obtain ⟨rfl, hrest⟩ := List.cons.inj heq
      rcases h.owed c' since dirty before hrest x hx with hsettled | ⟨hdep, howed⟩
      · exact .inl (hsettled.cons _)
      refine .inr ⟨?_, howed.imp_left (mem_cons_of_mem _)⟩
      by_cases hc : c' = c
      · subst hc
        rw [cache_setCache_same]
      · rwa [cache_setCache_of_ne s hc]

variable {owns : CacheId → Nat → Prop}

lemma Inv.move {blank : Nat → Prop} (h : s.Inv) (hmove : Move owns blank s s') : s'.Inv := by
  cases hmove with
  | flush hflush => exact h.flushMove hflush
  | age c i hits | take c i => exact h.setEntry fun hdirty _ => ⟨hdirty, rfl⟩
  | evict c i hits hi href hclean =>
    exact h.setEntry fun hdirty hoffset => absurd (hclean hdirty) hoffset
  | load c i offset table hi href hempty => exact h.setEntry fun _ hoffset => absurd hempty hoffset
  | depend c hother hthis => exact h.depend hother hthis
  | setFlag c => exact h.setFlag c true

lemma Inv.moves {blank : Nat → Prop} (h : s.Inv) (hmoves : Moves owns blank s s') : s'.Inv := by
  induction hmoves with
  | refl => exact h
  | tail _ hmove ih => exact ih.move hmove

lemma Inv.step {op : CacheOp α} {ret : Int} (h : s.Inv) (hstep : s.step op = some (ret, s')) :
    s'.Inv := by
  have hallowed : Allowed (fun _ _ => True) (fun _ => True) s op := by
    cases op with
    | getEmpty c offset => exact ⟨trivial, fun _ => trivial⟩
    | _ => trivial
  rcases step_moves hallowed hstep with ⟨hmoves, _⟩ | ⟨c, i, table, rfl, hmodify⟩ | ⟨c, i, rfl, hput⟩
  · exact h.moves hmoves
  · obtain ⟨_, _, rfl⟩ := modify_eq_some hmodify
    exact h.setEntry fun _ _ => ⟨rfl, rfl⟩
  · obtain ⟨_, _, rfl⟩ := put_eq_some hput
    exact h.setEntry fun hdirty _ => ⟨hdirty, rfl⟩

lemma Inv.run {ops : List (CacheOp α)} (h : s.Inv) (hrun : s.run ops = some s') : s'.Inv := by
  refine OptionFold.foldlM_invariant hrun (fun op _ s t hs hstep => ?_) h
  obtain ⟨⟨ret, last⟩, hlast, rfl⟩ := map_eq_some_iff.mp hstep
  exact hs.step hlast

lemma inv_create (sizes : CacheId → Nat) (table : CacheId → Nat → α) (file : Nat → α)
    (results : Nat → Int) : (create sizes table file results).Inv where
  acyclic c d hd := by cases hd
  ordered _ _ _ _ heq := absurd (List.append_eq_nil_iff.mp heq.symm).2 (cons_ne_nil _ _)
  owed _ _ _ _ heq := absurd (List.append_eq_nil_iff.mp heq.symm).2 (cons_ne_nil _ _)

lemma Flushing.acyclic (hflushing : Flushing s s') (h : s.Acyclic) : s'.Acyclic := by
  intro c d hd
  have hold : (s.cache c).depends = some d := by
    rcases hflushing.depends c with hnone | hsame
    · rw [hnone] at hd
      cases hd
    · exact hsame.symm.trans hd
  obtain ⟨hother, hnone⟩ := h c d hold
  rcases hflushing.depends d with hkept | hkept
  · exact ⟨hother, hkept⟩
  · exact ⟨hother, hkept.trans hnone⟩

section
variable {flush : CacheId → Caches α → Option (Int × Caches α)}

lemma entryFlush_isSome (h : ∀ d, (s.cache c).depends = some d → (flush d s).isSome = true) :
    (s.entryFlush flush c i).isSome = true := by
  have hbefore : (s.flushBefore flush c).isSome = true := by
    unfold flushBefore
    split
    next hsome =>
      obtain ⟨d, hd⟩ := isSome_iff_exists.mp hsome
      obtain ⟨⟨r, mid⟩, hrun⟩ := isSome_iff_exists.mp (h d hd)
      simp only [flushDependency, hd, hrun, bind_eq_bind, bind_some]
      split <;> rfl
    · split <;> rfl
  unfold entryFlush
  split
  · rfl
  obtain ⟨⟨r, mid⟩, hrun⟩ := isSome_iff_exists.mp hbefore
  simp only [hrun, bind_eq_bind, bind_some]
  repeat' split
  all_goals rfl

lemma flushEntries_isSome (hspec : FlushSpec flush)
    (h : ∀ mid, FlushMoves s mid → ∀ d, (mid.cache c).depends = some d → (flush d mid).isSome = true)
    {n : Nat} (hn : n ≤ (s.cache c).size) : (s.flushEntries flush c n).isSome = true := by
  induction n with
  | zero => rfl
  | succ n ih =>
    obtain ⟨⟨r, mid⟩, hrest⟩ := isSome_iff_exists.mp (ih (Nat.le_of_succ_le hn))
    have hmoves := (flushEntries_spec hspec (Nat.le_of_succ_le hn) hrest).1
    obtain ⟨⟨r', last⟩, hentry⟩ := isSome_iff_exists.mp
      (entryFlush_isSome (i := n) (h mid hmoves))
    rw [flushEntries, hrest]
    simp only [bind_eq_bind, bind_some, hentry, isSome_some]

lemma cacheFlush_succ_isSome {fuel : Nat} (h : ∀ mid, FlushMoves s mid →
    ∀ d, (mid.cache c).depends = some d → (cacheFlush fuel d mid).isSome = true) :
    (cacheFlush (fuel + 1) c s).isSome = true := by
  obtain ⟨⟨r, mid⟩, hloop⟩ := isSome_iff_exists.mp
    (flushEntries_isSome (cacheFlush_spec fuel) h (Nat.le_refl _))
  rw [cacheFlush, hloop]
  simp only [bind_eq_bind, bind_some]
  split <;> rfl

lemma cacheFlush_isSome (h : s.Acyclic) (fuel : Nat) : (cacheFlush (fuel + 2) c s).isSome = true := by
  refine cacheFlush_succ_isSome fun mid hmoves d hd => cacheFlush_succ_isSome fun last hmoves' d' hd' => ?_
  have hnone : (last.cache d).depends = none := by
    have hmid := (hmoves.flushing.acyclic h c d hd).2
    rcases hmoves'.flushing.depends d with hnone | hsame
    · exact hnone
    · exact hsame.trans hmid
  rw [hnone] at hd'
  cases hd'
end

lemma flushDependencyIf_isSome (h : s.Acyclic) {condition : Bool}
    (hcondition : condition = true → (s.cache c).depends.isSome = true) :
    (s.flushDependencyIf condition c).isSome = true := by
  unfold flushDependencyIf
  split
  next hc =>
    obtain ⟨d, hd⟩ := isSome_iff_exists.mp (hcondition hc)
    obtain ⟨⟨r, mid⟩, hrun⟩ := isSome_iff_exists.mp (cacheFlush_isSome h 0 (c := d))
    simp only [flushDependency, hd, hrun, bind_eq_bind, bind_some]
    split <;> rfl
  · rfl

lemma setDependency_isSome (h : s.Acyclic) (c : CacheId) : (s.setDependency c).isSome = true := by
  obtain ⟨⟨r, mid⟩, hfirst⟩ := isSome_iff_exists.mp (flushDependencyIf_isSome (c := c.other) h id)
  have hmid : mid.Acyclic := by
    unfold flushDependencyIf at hfirst
    split at hfirst
    · exact (flushDependency_spec (cacheFlush_spec 2) hfirst).1.flushing.acyclic h
    · cases hfirst
      exact h
  rw [setDependency]
  simp only [hfirst, bind_eq_bind, bind_some]
  split
  · rfl
  have hreturns : (mid.flushDependencyIf
      ((mid.cache c).depends.isSome && (mid.cache c).depends != some c.other) c).isSome = true :=
    flushDependencyIf_isSome hmid fun hc => (Bool.and_eq_true_iff.mp hc).1
  obtain ⟨⟨r', last⟩, hsecond⟩ := isSome_iff_exists.mp hreturns
  simp only [hsecond, bind_some]
  split <;> rfl

/-- In every run, whatever the requests return: the dependencies are not cyclic, a table is written
after the tables that its cache depended on, and the next flush and the next dependency return. -/
theorem tables_written_in_order (sizes : CacheId → Nat) (table : CacheId → Nat → α) (file : Nat → α)
    (results : Nat → Int) (ops : List (CacheOp α)) {s : Caches α}
    (hrun : (create sizes table file results).run ops = some s) :
    s.Acyclic ∧ Ordered s.log ∧
      ∀ c, (s.flush c).isSome = true ∧ (s.setDependency c).isSome = true := by
  have hinv := (inv_create sizes table file results).run hrun
  exact ⟨hinv.acyclic, hinv.ordered, fun c =>
    ⟨cacheFlush_isSome hinv.acyclic 0, setDependency_isSome hinv.acyclic c⟩⟩

def dependentEviction : List (CacheOp Nat) :=
  [.get .refcountBlock 512, .modify .refcountBlock 0 7, .get .l2Table 1024, .modify .l2Table 0 9,
    .setDependency .l2Table, .put .l2Table 0, .get .l2Table 2048, .flush .l2Table]

/-- The fourth request fails: the L2 table is written by the flush. -/
theorem tables_written_in_order_eviction :
    ∃ s : Caches Nat, (create (fun _ => 1) (fun _ _ => 0) (fun _ => 0)
        fun n => if n = 3 then -5 else 0).run dependentEviction = some s ∧
      s.log = [.flush, .write .l2Table 1024, .flush, .write .refcountBlock 512,
        .depend .l2Table [512]] ∧
      s.Acyclic ∧ Ordered s.log ∧
      ∀ c, (s.flush c).isSome = true ∧ (s.setDependency c).isSome = true := by
  have hlog : ((create (fun _ => 1) (fun _ _ => 0) (fun _ => 0)
      fun n => if n = 3 then -5 else 0).run dependentEviction).map Caches.log =
        some [.flush, .write .l2Table 1024, .flush, .write .refcountBlock 512,
          .depend .l2Table [512]] := by decide +kernel
  obtain ⟨s, hrun, hlog⟩ := map_eq_some_iff.mp hlog
  exact ⟨s, hrun, hlog, tables_written_in_order _ _ _ _ _ hrun⟩

end QemuVmi.Qcow2.Caches
