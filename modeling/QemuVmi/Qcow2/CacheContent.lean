import QemuVmi.Qcow2.CacheOrder

/-!
# Contents of the metadata caches

The caches and the file together hold, for each offset, what has last been written to it. The
exception is `qcow2_cache_get_empty`: it hands out the table of an entry as it is, and until the
table is modified its content is that of another offset.

Results:
1. `Moves.kept`: an entry in use keeps its table.
2. `doGet_isSome`: a table can be obtained as long as an entry is not in use.
3. `caches_hold_last_written`: what this means for the tables that are obtained and for the file
   after a flush; `getEmpty_not_written`: the content of a table that is not modified.
-/

namespace QemuVmi.Qcow2.Caches

open Option Function List Nat

variable {α : Type} {s s' : Caches α} {c d : CacheId} {i n : Nat} {owner : Nat → CacheId}
  {content content' : Nat → Option α}

/-- The caches and the file hold the `content` of the offsets at which it is defined. The tables
at an offset go through the cache that is its owner. -/
structure Mirrors (owner : Nat → CacheId) (content : Nat → Option α) (s : Caches α) : Prop where
  unique : ∀ c i j, i < (s.cache c).size → j < (s.cache c).size →
    (s.entry c i).offset = (s.entry c j).offset → (s.entry c i).offset ≠ 0 → i = j
  owned : ∀ c i, i < (s.cache c).size → (s.entry c i).offset ≠ 0 → owner (s.entry c i).offset = c
  used : ∀ c i, i < (s.cache c).size → (s.entry c i).ref ≠ 0 → (s.entry c i).offset ≠ 0
  empty : ∀ c i, i < (s.cache c).size → (s.entry c i).offset = 0 → (s.entry c i).dirty = false
  table : ∀ c i, i < (s.cache c).size → (s.entry c i).offset ≠ 0 →
    ∀ t, content (s.entry c i).offset = some t → (s.entry c i).table = t
  file : ∀ o t, o ≠ 0 → content o = some t → s.file o = t ∨
    ∃ i < (s.cache (owner o)).size, (s.entry (owner o) i).offset = o ∧
      (s.entry (owner o) i).dirty = true

/-- The content after an operation. A table that has been got empty and was not cached has no
content. -/
def contentAfter (s : Caches α) (content : Nat → Option α) : CacheOp α → Nat → Option α
  | .getEmpty c offset => if s.lookup c offset = none then update content offset none else content
  | .modify c i table => update content (s.entry c i).offset (some table)
  | _ => content

def OwnerOp (owner : Nat → CacheId) : CacheOp α → Prop
  | .get c offset | .getEmpty c offset => owner offset = c
  | _ => True

inductive Runs (owner : Nat → CacheId) (start : Caches α) : Caches α → (Nat → Option α) → Prop
  | start : Runs owner start start fun o => some (start.file o)
  | step {s s' : Caches α} {content : Nat → Option α} {op : CacheOp α} {ret : Int} :
      Runs owner start s content → OwnerOp owner op → s.step op = some (ret, s') →
      Runs owner start s' (s.contentAfter content op)

section
variable (h : s.Mirrors owner content)
include h

lemma Mirrors.congr
    (hsize : ∀ c, (s'.cache c).size = (s.cache c).size) (hentry : ∀ c i, s'.entry c i = s.entry c i)
    (hfile : s'.file = s.file) : s'.Mirrors owner content := by
  obtain ⟨hunique, howned, hused, hempty, htable, hcontent⟩ := h
  constructor <;> simp only [hsize, hentry, hfile] <;> assumption

lemma Mirrors.mono
    (hle : ∀ o t, content' o = some t → content o = some t) : s.Mirrors owner content' where
  unique := h.unique
  owned := h.owned
  used := h.used
  empty := h.empty
  table c i hi hoffset t ht := h.table c i hi hoffset t (hle _ t ht)
  file o t ho ht := h.file o t ho (hle o t ht)

lemma Mirrors.setEntry {e : CachedTable α} (hi : i < (s.cache c).size)
    (hkeep : (s.entry c i).dirty = true → (s.entry c i).offset ≠ 0 → e.offset = (s.entry c i).offset)
    (hle : ∀ o t, o ≠ e.offset → content' o = some t → content o = some t)
    (href : e.ref ≠ 0 → e.offset ≠ 0) (hempty : e.offset = 0 → e.dirty = false)
    (hnew : e.offset ≠ 0 → owner e.offset = c ∧
      (∀ j < (s.cache c).size, j ≠ i → (s.entry c j).offset ≠ e.offset) ∧
      ∀ t, content' e.offset = some t → e.table = t ∧ (s.file e.offset = t ∨ e.dirty = true)) :
    (s.setEntry c i e).Mirrors owner content' := by
  have hother : ∀ {d j}, ¬ (d = c ∧ j = i) → (s.setEntry c i e).entry d j = s.entry d j :=
    fun heq => s.entry_setEntry_of_ne heq
  refine ⟨?_, ?_, ?_, ?_, ?_, ?_⟩
  · intro d j k hj hk hoffset hne
    rw [size_setEntry] at hj hk
    by_cases hjc : d = c ∧ j = i <;> by_cases hkc : d = c ∧ k = i
    · exact hjc.2.trans hkc.2.symm
    · obtain ⟨rfl, rfl⟩ := hjc
      rw [entry_setEntry_same] at hoffset hne
      rw [hother hkc] at hoffset
      exact absurd hoffset.symm ((hnew hne).2.1 k hk fun hki => hkc ⟨rfl, hki⟩)
    · obtain ⟨rfl, rfl⟩ := hkc
      rw [entry_setEntry_same] at hoffset
      rw [hoffset] at hne
      rw [hother hjc] at hoffset
      exact absurd hoffset ((hnew hne).2.1 j hj fun hji => hjc ⟨rfl, hji⟩)
    · rw [hother hjc] at hne hoffset
      rw [hother hkc] at hoffset
      exact h.unique d j k hj hk hoffset hne
  · intro d j hj hne
    rw [size_setEntry] at hj
    by_cases hjc : d = c ∧ j = i
    · obtain ⟨rfl, rfl⟩ := hjc
      rw [entry_setEntry_same] at hne ⊢
      exact (hnew hne).1
    · rw [hother hjc] at hne ⊢
      exact h.owned d j hj hne
  · intro d j hj hne
    rw [size_setEntry] at hj
    by_cases hjc : d = c ∧ j = i
    · obtain ⟨rfl, rfl⟩ := hjc
      rw [entry_setEntry_same] at hne ⊢
      exact href hne
    · rw [hother hjc] at hne ⊢
      exact h.used d j hj hne
  · intro d j hj hzero
    rw [size_setEntry] at hj
    by_cases hjc : d = c ∧ j = i
    · obtain ⟨rfl, rfl⟩ := hjc
      rw [entry_setEntry_same] at hzero ⊢
      exact hempty hzero
    · rw [hother hjc] at hzero ⊢
      exact h.empty d j hj hzero
  · intro d j hj hne t ht
    rw [size_setEntry] at hj
    by_cases hjc : d = c ∧ j = i
    · obtain ⟨rfl, rfl⟩ := hjc
      rw [entry_setEntry_same] at hne ht ⊢
      exact ((hnew hne).2.2 t ht).1
    rw [hother hjc] at hne ht ⊢
    refine h.table d j hj hne t (hle _ t (fun hsame => ?_) ht)
    -- no other entry has the offset of this one
    have hd : d = c := (h.owned d j hj hne).symm.trans (hsame ▸ (hnew (hsame ▸ hne)).1)
    subst hd
    exact (hnew (hsame ▸ hne)).2.1 j hj (fun hji => hjc ⟨rfl, hji⟩) hsame
  · intro o t ho ht
    rw [size_setEntry]
    by_cases hoe : o = e.offset
    · subst hoe
      obtain ⟨howner, _, hself⟩ := hnew ho
      rcases (hself t ht).2 with hfile | hdirty
      · exact .inl hfile
      · refine .inr ⟨i, howner.symm ▸ hi, ?_⟩
        rw [howner, entry_setEntry_same]
        exact ⟨rfl, hdirty⟩
    · rcases h.file o t ho (hle o t hoe ht) with hfile | ⟨j, hj, hoffset, hdirty⟩
      · exact .inl hfile
      refine .inr ⟨j, hj, ?_⟩
      by_cases hjc : owner o = c ∧ j = i
      · obtain ⟨rfl, rfl⟩ := hjc
        exact absurd (hoffset.symm.trans (hkeep hdirty (hoffset.symm ▸ ho)).symm) hoe
      · rw [hother hjc]
        exact ⟨hoffset, hdirty⟩

lemma Mirrors.known (hi : i < (s.cache c).size)
    (hoffset : (s.entry c i).offset ≠ 0) : owner (s.entry c i).offset = c ∧
      (∀ j < (s.cache c).size, j ≠ i → (s.entry c j).offset ≠ (s.entry c i).offset) ∧
      ∀ t, content (s.entry c i).offset = some t → (s.entry c i).table = t ∧
        (s.file (s.entry c i).offset = t ∨ (s.entry c i).dirty = true) := by
  have howned := h.owned c i hi hoffset
  refine ⟨howned, fun j hj hji hsame => hji (h.unique c j i hj hi hsame (hsame.symm ▸ hoffset)),
    fun t ht => ⟨h.table c i hi hoffset t ht, ?_⟩⟩
  rcases h.file _ t hoffset ht with hfile | ⟨j, hj, hsame, hdirty⟩
  · exact .inl hfile
  · rw [howned] at hj hsame hdirty
    cases h.unique c j i hj hi hsame (hsame.symm ▸ hoffset)
    exact .inr hdirty

lemma Mirrors.counters (hits ref : Nat) (hi : i < (s.cache c).size)
    (href : ref ≠ 0 → (s.entry c i).offset ≠ 0) :
    (s.setEntry c i { s.entry c i with cacheHits := hits, ref := ref }).Mirrors owner content :=
  h.setEntry hi (fun _ _ => rfl) (fun _ _ _ ht => ht) href (h.empty c i hi) (h.known hi)

lemma Mirrors.written (hi : i < (s.cache c).size)
    (hoffset : (s.entry c i).offset ≠ 0) : (s.written c i).Mirrors owner content := by
  have hfile : Mirrors owner content
      { s with file := update s.file (s.entry c i).offset (s.entry c i).table } := by
    refine ⟨h.unique, h.owned, h.used, h.empty, h.table, fun o t ho ht => ?_⟩
    by_cases hsame : o = (s.entry c i).offset
    · subst hsame
      exact .inl ((update_self ..).trans (h.table c i hi hoffset t ht))
    · rcases h.file o t ho ht with hold | hdirty
      · exact .inl ((update_of_ne hsame ..).trans hold)
      · exact .inr hdirty
  have hclean : Mirrors owner content (Caches.setEntry { s with
      file := update s.file (s.entry c i).offset (s.entry c i).table } c i
        { s.entry c i with dirty := false }) := by
    refine hfile.setEntry hi (fun _ _ => rfl) (fun _ _ _ ht => ht) (h.used c i hi) (fun _ => rfl)
      fun _ => ?_
    obtain ⟨howned, hunique, hknown⟩ := h.known hi hoffset
    refine ⟨howned, hunique, fun t ht => ⟨(hknown t ht).1, .inl ?_⟩⟩
    exact (update_self ..).trans (hknown t ht).1
  exact hclean.congr (fun _ => rfl) (fun _ _ => rfl) rfl

lemma Mirrors.flushMove (hmove : FlushMove s s') : s'.Mirrors owner content := by
  cases hmove with
  | request | flush => exact h.congr (fun _ => rfl) (fun _ _ => rfl) rfl
  | write c i hi hdepends hoffset => exact h.written hi hoffset
  | clearFlag c => exact h.congr (fun _ => s.size_setCache rfl) (fun _ _ => s.entry_setCache rfl) rfl
  | clearDepends c d =>
    exact h.congr (fun _ => s.size_setCache rfl) (fun _ _ => s.entry_setCache rfl) rfl

lemma Mirrors.move (hmove : Move (fun c o => owner o = c) (fun o => content o = none) s s') :
    s'.Mirrors owner content := by
  cases hmove with
  | flush hflush => exact h.flushMove hflush
  | age c i hits hi => exact h.counters hits (s.entry c i).ref hi (h.used c i hi)
  | take c i hi hoffset => exact h.counters _ _ hi fun _ => hoffset
  | evict c i hits hi href hclean =>
    refine h.setEntry hi (fun hdirty hoffset => absurd (hclean hdirty) hoffset) (fun _ _ _ ht => ht)
      (fun hne => absurd href hne) (fun _ => ?_) (fun hne => absurd rfl hne)
    -- an entry without a table is clean
    cases hdirty : (s.entry c i).dirty with
    | false => rfl
    | true => exact hdirty.symm.trans (h.empty c i hi (hclean hdirty))
  | load c i offset table hi href hempty hoffset howns hnew htable =>
    refine h.setEntry hi (fun _ hne => absurd hempty hne) (fun _ _ _ ht => ht)
      (fun hne => absurd href hne) (fun hzero => absurd hzero hoffset) fun _ => ?_
    refine ⟨howns, fun j hj _ => hnew j hj, fun t ht => ?_⟩
    have hread : table = s.file offset := htable.resolve_right fun hblank => by
      rw [hblank] at ht
      cases ht
    have hfile : s.file offset = t := by
      rcases h.file offset t hoffset ht with hfile | ⟨j, hj, hsame, _⟩
      · exact hfile
      · rw [howns] at hj hsame
        exact absurd hsame (hnew j hj)
    exact ⟨hread.trans hfile, .inl hfile⟩
  | depend c | setFlag c =>
    exact h.congr (fun _ => s.size_setCache rfl) (fun _ _ => s.entry_setCache rfl) rfl

lemma Mirrors.moves (hmoves : Moves (fun c o => owner o = c) (fun o => content o = none) s s') :
    s'.Mirrors owner content := by
  induction hmoves with
  | refl => exact h
  | tail _ hmove ih => exact ih.move hmove
end

variable {offset : Nat} {op : CacheOp α} {start : Caches α}

lemma of_update_none {o : Nat} {t : α} (h : update content offset none o = some t) :
    content o = some t := by
  by_cases ho : o = offset
  · rw [ho, update_self] at h
    cases h
  · rwa [update_of_ne ho] at h

lemma Mirrors.step {ret : Int} (h : s.Mirrors owner content) (hop : OwnerOp owner op)
    (hstep : s.step op = some (ret, s')) : s'.Mirrors owner (s.contentAfter content op) := by
  have hallowed : Allowed (fun c o => owner o = c) (fun o => s.contentAfter content op o = none) s op := by
    cases op with
    | getEmpty c offset =>
      refine ⟨hop, fun hlookup => ?_⟩
      simp only [contentAfter, hlookup, if_true, update_self]
    | get c offset => exact hop
    | _ => trivial
  rcases step_moves hallowed hstep with
    ⟨hmoves, hop'⟩ | ⟨c, i, table, rfl, hmodify⟩ | ⟨c, i, rfl, hput⟩
  · refine Mirrors.moves (h.mono fun o t ht => ?_) hmoves
    cases op with
    | getEmpty c offset =>
      dsimp only [contentAfter] at ht
      split at ht
      · exact of_update_none ht
      · exact ht
    | modify c i table => exact absurd rfl (hop' c i table)
    | _ => exact ht
  · obtain ⟨hi, href, rfl⟩ := modify_eq_some hmodify
    have hoffset := h.used c i hi href
    obtain ⟨howned, hunique, _⟩ := h.known hi hoffset
    refine h.setEntry hi (fun _ _ => rfl) (fun o t hne ht => ?_) (fun _ => hoffset)
      (fun hzero => absurd hzero hoffset) fun _ => ⟨howned, hunique, fun t ht => ?_⟩
    · rwa [contentAfter, update_of_ne hne] at ht
    · rw [contentAfter, update_self] at ht
      exact ⟨Option.some.inj ht, .inr rfl⟩
  · obtain ⟨hi, href, rfl⟩ := put_eq_some hput
    exact h.counters _ _ hi fun _ => h.used c i hi href

section
variable {owns : CacheId → Nat → Prop} {blank : Nat → Prop}

lemma Move.kept (hmove : Move owns blank s s') (href : (s.entry d n).ref ≠ 0) :
    (s'.entry d n).offset = (s.entry d n).offset ∧ (s'.entry d n).table = (s.entry d n).table ∧
      (s'.entry d n).ref ≠ 0 := by
  have hentry : ∀ {c i e}, ((d = c ∧ n = i) → e.offset = (s.entry c i).offset ∧
      e.table = (s.entry c i).table ∧ e.ref ≠ 0) →
      ((s.setEntry c i e).entry d n).offset = (s.entry d n).offset ∧
        ((s.setEntry c i e).entry d n).table = (s.entry d n).table ∧
        ((s.setEntry c i e).entry d n).ref ≠ 0 := by
    intro c i e he
    by_cases heq : d = c ∧ n = i
    · have hsame := he heq
      obtain ⟨rfl, rfl⟩ := heq
      rwa [entry_setEntry_same]
    · rw [entry_setEntry_of_ne s heq]
      exact ⟨rfl, rfl, href⟩
  cases hmove with
  | flush hflush =>
    rw [hflush.flushing.entry]
    exact ⟨rfl, rfl, href⟩
  | age c i hits =>
    refine hentry ?_
    rintro ⟨rfl, rfl⟩
    exact ⟨rfl, rfl, href⟩
  | take c i => exact hentry fun _ => ⟨rfl, rfl, succ_ne_zero _⟩
  | evict c i hits hi hfree | load c i offset table hi hfree =>
    refine hentry ?_
    rintro ⟨rfl, rfl⟩
    exact absurd hfree href
  | depend c =>
    change ((s.setCache c _).entry d n).offset = _ ∧ ((s.setCache c _).entry d n).table = _ ∧
      ((s.setCache c _).entry d n).ref ≠ 0
    rw [entry_setCache s (by rfl)]
    exact ⟨rfl, rfl, href⟩
  | setFlag c =>
    rw [dependsOnFlush, entry_setCache s (by rfl)]
    exact ⟨rfl, rfl, href⟩

lemma Moves.kept (hmoves : Moves owns blank s s') (href : (s.entry d n).ref ≠ 0) :
    (s'.entry d n).offset = (s.entry d n).offset ∧ (s'.entry d n).table = (s.entry d n).table ∧
      (s'.entry d n).ref ≠ 0 := by
  induction hmoves with
  | refl => exact ⟨rfl, rfl, href⟩
  | tail _ hmove ih =>
    obtain ⟨hoffset, htable, href'⟩ := ih
    obtain ⟨hoffset', htable', href''⟩ := hmove.kept href'
    exact ⟨hoffset'.trans hoffset, htable'.trans htable, href''⟩

lemma allowed_all (s : Caches α) (op : CacheOp α) :
    Allowed (fun _ _ => True) (fun _ => True) s op := by
  cases op with
  | getEmpty c offset => exact ⟨trivial, fun _ => trivial⟩
  | _ => trivial

lemma step_kept {op : CacheOp α} {ret : Int} (hstep : s.step op = some (ret, s'))
    (href : (s.entry d n).ref ≠ 0) : (s'.entry d n).offset = (s.entry d n).offset := by
  rcases step_moves (allowed_all s op) hstep with
    ⟨hmoves, _⟩ | ⟨c, i, table, rfl, hmodify⟩ | ⟨c, i, rfl, hput⟩
  · exact (hmoves.kept href).1
  · obtain ⟨_, _, rfl⟩ := modify_eq_some hmodify
    by_cases heq : d = c ∧ n = i
    · obtain ⟨rfl, rfl⟩ := heq
      rw [entry_setEntry_same]
    · rw [entry_setEntry_of_ne s heq]
  obtain ⟨_, _, rfl⟩ := put_eq_some hput
  by_cases heq : d = c ∧ n = i
  · obtain ⟨rfl, rfl⟩ := heq
    rw [entry_setEntry_same]
  · rw [entry_setEntry_of_ne s heq]
end

def NoError (s : Caches α) : Prop := ∀ n, 0 ≤ s.results n

lemma Flushing.noError (hflushing : Flushing s s') (h : s.NoError) : s'.NoError := by
  intro n
  rw [hflushing.results]
  exact h n

section
variable {flush : CacheId → Caches α → Option (Int × Caches α)} {ret : Int}

lemma flushBefore_nonneg (h : s.NoError) (hflush : ∀ d r mid, flush d s = some (r, mid) → 0 ≤ r)
    (hrun : s.flushBefore flush c = some (ret, s')) : 0 ≤ ret := by
  unfold flushBefore at hrun
  split at hrun
  · obtain ⟨d, hd, hrun⟩ := bind_eq_some_iff.mp hrun
    obtain ⟨⟨r, mid⟩, hflushed, hrun⟩ := bind_eq_some_iff.mp hrun
    have hr := hflush d r mid hflushed
    dsimp only at hrun
    rw [if_neg (Int.not_lt.mpr hr)] at hrun
    cases hrun
    exact le_refl 0
  · split at hrun
    · cases hrun
      exact h s.done
    · cases hrun
      exact le_refl 0

lemma entryFlush_nonneg (h : s.NoError) (hspec : FlushSpec flush)
    (hflush : ∀ d r mid, flush d s = some (r, mid) → 0 ≤ r)
    (hrun : s.entryFlush flush c i = some (ret, s')) : 0 ≤ ret := by
  unfold entryFlush at hrun
  split at hrun
  · cases hrun
    exact le_refl 0
  obtain ⟨⟨r, mid⟩, hbefore, hrun⟩ := bind_eq_some_iff.mp hrun
  have hr := flushBefore_nonneg h hflush hbefore
  have hmid := (flushBefore_spec hspec hbefore).1.flushing.noError h
  unfold pwriteTable request at hrun
  dsimp only at hrun
  rw [if_neg (Int.not_lt.mpr hr), if_neg (Int.not_lt.mpr (hmid _)),
    if_neg (Int.not_lt.mpr (hmid _))] at hrun
  cases hrun
  exact le_refl 0

lemma flushEntries_eq_zero (h : s.NoError) (hspec : FlushSpec flush)
    (hflush : ∀ d s r mid, s.NoError → flush d s = some (r, mid) → 0 ≤ r)
    (hn : n ≤ (s.cache c).size) (hrun : s.flushEntries flush c n = some (ret, s')) : ret = 0 := by
  induction n generalizing s' ret with
  | zero =>
    cases hrun
    rfl
  | succ n ih =>
    obtain ⟨⟨result, mid⟩, hrest, hrun⟩ := bind_eq_some_iff.mp hrun
    obtain ⟨⟨r, last⟩, hentry, hrun⟩ := bind_eq_some_iff.mp hrun
    have hresult := ih (le_of_succ_le hn) hrest
    have hmid := (flushEntries_spec hspec (le_of_succ_le hn) hrest).1.flushing.noError h
    have hr := entryFlush_nonneg hmid hspec (fun d r mid' => hflush d mid r mid' hmid) hentry
    cases hrun
    rwa [if_neg (fun hneg => absurd hneg.1 (Int.not_lt.mpr hr))]

lemma cacheFlush_eq_zero {fuel : Nat} (h : s.NoError)
    (hrun : cacheFlush fuel c s = some (ret, s')) : ret = 0 := by
  induction fuel generalizing s s' c ret with
  | zero => cases hrun
  | succ fuel ih =>
    obtain ⟨⟨result, mid⟩, hloop, hrun⟩ := bind_eq_some_iff.mp hrun
    have hresult := flushEntries_eq_zero h (cacheFlush_spec fuel)
      (fun d s r mid hs hr => (ih hs hr).symm.le) (le_refl _) hloop
    have hmid := (flushEntries_spec (cacheFlush_spec fuel) (le_refl _) hloop).1.flushing.noError h
    dsimp only at hrun
    rw [if_pos hresult] at hrun
    cases hrun
    exact if_neg (Int.not_lt.mpr (hmid _))
end

lemma findLoop_none (s : Caches α) (c : CacheId) (n : Nat) :
    (∀ j, n ≤ j → (s.findLoop c n).2.2.entry c j = s.entry c j) ∧
      ((s.findLoop c n).2.1 = none → (s.findLoop c n).1 = intMax ∧
        ∀ i < n, (s.entry c i).ref = 0 → intMax ≤ (s.entry c i).cacheHits) := by
  induction n with
  | zero => exact ⟨fun _ _ => rfl, fun _ => ⟨rfl, fun i hi => absurd hi (not_lt_zero i)⟩⟩
  | succ n ih =>
    unfold findLoop
    generalize s.findLoop c n = r at ih ⊢
    obtain ⟨minCount, minIndex, mid⟩ := r
    obtain ⟨hkept, hnone⟩ := ih
    dsimp only at hkept hnone ⊢
    have hn := hkept n (le_refl n)
    have haged : ∀ j, n + 1 ≤ j → (mid.setEntry c n { mid.entry c n with
        cacheHits := (mid.entry c n).cacheHits / 2 }).entry c j = s.entry c j := by
      intro j hj
      rw [entry_setEntry_of_ne _ (by omega), hkept j (by omega)]
    split
    next href =>
      refine ⟨fun j hj => hkept j (by omega), fun hidx => ⟨(hnone hidx).1, fun i hi hfree => ?_⟩⟩
      rcases Nat.lt_succ_iff_lt_or_eq.mp hi with hlt | rfl
      · exact (hnone hidx).2 i hlt hfree
      · exact absurd (hn ▸ hfree) href
    · split
      · exact ⟨haged, fun hidx => by cases hidx⟩
      rename_i hcount
      refine ⟨haged, fun hidx => ⟨(hnone hidx).1, fun i hi hfree => ?_⟩⟩
      rcases Nat.lt_succ_iff_lt_or_eq.mp hi with hlt | rfl
      · exact (hnone hidx).2 i hlt hfree
      · rw [(hnone hidx).1, hn] at hcount
        exact not_lt.mp hcount

lemma exists_unused (h : ((range (s.cache c).size).map fun i => (s.entry c i).ref).sum <
    (s.cache c).size) : ∃ i < (s.cache c).size, (s.entry c i).ref = 0 := by
  by_contra hall
  push Not at hall
  have hle := length_le_sum_of_one_le
    ((range (s.cache c).size).map fun i => (s.entry c i).ref) (by
      simp only [List.mem_map, List.mem_range]
      rintro _ ⟨i, hi, rfl⟩
      exact Nat.one_le_iff_ne_zero.mpr (hall i hi))
  rw [length_map, length_range] at hle
  omega

lemma found_isSome (hhits : (s.entry c i).cacheHits < intMax) (href : (s.entry c i).ref < intMax) :
    ∃ s', s.found c i = some (0, some i, s') := by
  unfold found
  rw [if_neg (by omega)]
  exact ⟨_, rfl⟩

lemma replace_isSome (offset : Nat) (readFromDisk : Bool) (hacyclic : s.Acyclic) (herror : s.NoError)
    (hi : i < (s.cache c).size) (href : (s.entry c i).ref = 0) :
    ∃ s', s.replace c i offset readFromDisk = some (0, some i, s') := by
  obtain ⟨⟨r, mid⟩, hflush⟩ := isSome_iff_exists.mp
    (entryFlush_isSome (i := i) fun d _ => cacheFlush_isSome (c := d) hacyclic 0)
  have hr := entryFlush_nonneg herror (cacheFlush_spec 2)
    (fun d r mid hrun => (cacheFlush_eq_zero herror hrun).symm.le) hflush
  have hflushing := (entryFlush_spec (cacheFlush_spec 2) hi hflush).1.flushing
  have href' : (mid.entry c i).ref = 0 := by
    rwa [hflushing.entry c i]
  have hstart : 32 < intMax := by decide
  have hfree : ((mid.setEntry c i { mid.entry c i with offset := 0 }).entry c i).ref < intMax := by
    rw [entry_setEntry_same]
    exact href'.symm ▸ (by decide)
  have hread : 0 ≤ (mid.setEntry c i { mid.entry c i with offset := 0 }).results mid.done :=
    hflushing.noError herror mid.done
  simp only [replace, hflush, bind_eq_bind, bind_some]
  rw [if_neg (Int.not_lt.mpr hr)]
  have hdone : (mid.setEntry c i { mid.entry c i with offset := 0 }).done = mid.done := rfl
  rw [← hdone] at hread
  generalize mid.setEntry c i { mid.entry c i with offset := 0 } = last at hfree hread
  cases readFromDisk with
  | false =>
    rw [if_neg Bool.false_ne_true]
    refine found_isSome ?_ ?_
    · rwa [entry_setEntry_same]
    · rw [entry_setEntry_same]
      exact hfree
  | true =>
    rw [if_pos rfl]
    simp only [preadTable, request, Int.not_lt.mpr hread, if_false]
    refine found_isSome ?_ ?_
    · rwa [entry_setEntry_same]
    · rw [entry_setEntry_same, entry_setEntry_same]
      exact hfree

lemma doGet_isSome {readFromDisk : Bool} (hacyclic : s.Acyclic) (herror : s.NoError)
    (hrefs : ((range (s.cache c).size).map fun i => (s.entry c i).ref).sum < (s.cache c).size)
    (hsize : (s.cache c).size ≤ intMax)
    (hhits : ∀ i < (s.cache c).size, (s.entry c i).cacheHits < intMax) :
    ∃ i s', s.doGet c offset readFromDisk = some (0, some i, s') := by
  unfold doGet
  cases hlookup : s.lookup c offset with
  | some i =>
    obtain ⟨hi, _⟩ := lookup_eq_some hlookup
    have hle : (s.entry c i).ref ≤ _ := single_le_sum (fun _ _ => zero_le _) _
      (mem_map_of_mem (f := fun i => (s.entry c i).ref) (List.mem_range.mpr hi))
    obtain ⟨s', hfound⟩ := found_isSome (hhits i hi) (by omega)
    exact ⟨i, s', hfound⟩
  | none =>
    obtain ⟨k, hk, hfree⟩ := exists_unused hrefs
    have hfind : ∃ i mid, s.findEntryToReplace c = some (i, mid) := by
      unfold findEntryToReplace
      obtain ⟨_, hnone⟩ := findLoop_none s c (s.cache c).size
      generalize s.findLoop c (s.cache c).size = r at hnone
      obtain ⟨minCount, minIndex, mid⟩ := r
      cases minIndex with
      | some i => exact ⟨i, mid, rfl⟩
      | none => exact absurd ((hnone rfl).2 k hk hfree) (not_le.mpr (hhits k hk))
    obtain ⟨i, mid, hfind⟩ := hfind
    obtain ⟨_, haged, hi, href⟩ :
        Moves (fun _ _ => True) (fun _ => True) s mid ∧ _ ∧ _ ∧ _ := findEntryToReplace_spec hfind
    have hmid : mid.Acyclic := by
      intro c d hd
      rw [(haged.cache c).2] at hd
      rw [(haged.cache d).2]
      exact hacyclic c d hd
    have herror' : mid.NoError := fun n => haged.results ▸ herror n
    obtain ⟨s', hreplace⟩ := replace_isSome offset readFromDisk hmid herror'
      ((haged.cache c).1.symm ▸ hi) href
    exact ⟨i, s', by simp only [hfind, bind_eq_bind, bind_some, hreplace]⟩

lemma mirrors_create (sizes : CacheId → Nat) (table : CacheId → Nat → α) (file : Nat → α)
    (results : Nat → Int) : (create sizes table file results).Mirrors owner fun o => some (file o) where
  unique _ _ _ _ _ _ hne := absurd rfl hne
  owned _ _ _ hne := absurd rfl hne
  used _ _ _ hne := absurd rfl hne
  empty _ _ _ _ := rfl
  table _ _ _ hne := absurd rfl hne
  file _ _ _ ht := .inl (Option.some.inj ht)

lemma Runs.mirrors (hrun : Runs owner start s content)
    (hstart : start.Mirrors owner fun o => some (start.file o)) : s.Mirrors owner content := by
  induction hrun with
  | start => exact hstart
  | step _ hop hstep ih => exact ih.step hop hstep

lemma Move.results {owns : CacheId → Nat → Prop} {blank : Nat → Prop}
    (hmove : Move owns blank s s') : s'.results = s.results := by
  cases hmove with
  | flush hflush => exact hflush.flushing.results
  | _ => rfl

lemma step_results {ret : Int} (hstep : s.step op = some (ret, s')) : s'.results = s.results := by
  rcases step_moves (allowed_all s op) hstep with
    ⟨hmoves, _⟩ | ⟨c, i, table, rfl, hmodify⟩ | ⟨c, i, rfl, hput⟩
  · clear hstep
    induction hmoves with
    | refl => rfl
    | tail _ hmove ih => exact hmove.results.trans ih
  · obtain ⟨_, _, rfl⟩ := modify_eq_some hmodify
    rfl
  · obtain ⟨_, _, rfl⟩ := put_eq_some hput
    rfl

lemma Runs.inv (hrun : Runs owner start s content) (hstart : start.Inv) (herror : start.NoError) :
    s.Inv ∧ s.NoError := by
  induction hrun with
  | start => exact ⟨hstart, herror⟩
  | step _ _ hstep ih => exact ⟨ih.1.step hstep, fun n => step_results hstep ▸ ih.2 n⟩

lemma Mirrors.doGet {readFromDisk : Bool} {ret : Int} (h : s.Mirrors owner content)
    (hoffset : offset ≠ 0) (howner : owner offset = c)
    (hread : readFromDisk = true ∨ s.lookup c offset ≠ none)
    (hget : s.doGet c offset readFromDisk = some (ret, some i, s')) :
    (s'.entry c i).offset = offset ∧ ∀ t, content offset = some t → (s'.entry c i).table = t := by
  have hblank : readFromDisk = false → s.lookup c offset = none → content offset = none := by
    intro hfalse hnone
    rcases hread with htrue | hsome
    · rw [hfalse] at htrue
      cases htrue
    · exact absurd hnone hsome
  obtain ⟨hmoves, hresult⟩ : Moves (fun c o => owner o = c) (fun o => content o = none) s s' ∧ _ :=
    doGet_spec hoffset howner hblank hget
  obtain ⟨hi, heq⟩ := hresult i rfl
  have hmirrors := h.moves hmoves
  refine ⟨heq, fun t ht => ?_⟩
  exact hmirrors.table c i hi (heq.symm ▸ hoffset) t (heq.symm ▸ ht)

lemma Mirrors.flushed (h : s.Mirrors owner content) (hclean : s.Clean c) {o : Nat} {t : α}
    (ho : o ≠ 0) (howner : owner o = c) (ht : content o = some t) : s.file o = t := by
  rcases h.file o t ho ht with hfile | ⟨j, hj, hoffset, hdirty⟩
  · exact hfile
  · rw [howner] at hj hoffset hdirty
    exact absurd (hoffset.symm.trans (hclean j hj hdirty)) ho

/-- In every run without errors: an offset has one entry; a table is obtained if there are fewer
references than entries, and has the content that has last been written at its offset; an entry in
use keeps its offset; and after a flush the file has the content of all the offsets. -/
theorem caches_hold_last_written (sizes : CacheId → Nat) (table : CacheId → Nat → α) (file : Nat → α)
    {results : Nat → Int} (herror : ∀ n, 0 ≤ results n)
    (hrun : Runs owner (create sizes table file results) s content) :
    (∀ c i j, i < (s.cache c).size → j < (s.cache c).size →
      (s.entry c i).offset = (s.entry c j).offset → (s.entry c i).offset ≠ 0 → i = j) ∧
    (∀ c offset readFromDisk,
      ((range (s.cache c).size).map fun i => (s.entry c i).ref).sum < (s.cache c).size →
      (s.cache c).size ≤ intMax → (∀ i < (s.cache c).size, (s.entry c i).cacheHits < intMax) →
      ∃ i s', s.doGet c offset readFromDisk = some (0, some i, s')) ∧
    (∀ c offset readFromDisk ret i s', offset ≠ 0 → owner offset = c →
      (readFromDisk = true ∨ s.lookup c offset ≠ none) →
      s.doGet c offset readFromDisk = some (ret, some i, s') →
      (s'.entry c i).offset = offset ∧ ∀ t, content offset = some t → (s'.entry c i).table = t) ∧
    (∀ op ret s' c i, s.step op = some (ret, s') → (s.entry c i).ref ≠ 0 →
      (s'.entry c i).offset = (s.entry c i).offset) ∧
    ∀ c, ∃ s', s.flush c = some (0, s') ∧
      ∀ o t, o ≠ 0 → owner o = c → content o = some t → s'.file o = t ∧
        ∀ i < (s'.cache c).size, (s'.entry c i).offset = o → (s'.entry c i).table = t := by
  have hmirrors := hrun.mirrors (mirrors_create sizes table file results)
  obtain ⟨hinv, hnoError⟩ := hrun.inv (inv_create sizes table file results) herror
  refine ⟨hmirrors.unique, fun c offset readFromDisk => doGet_isSome hinv.acyclic hnoError, ?_, ?_, ?_⟩
  · intro c offset readFromDisk ret i s' hoffset howner hread hget
    exact hmirrors.doGet hoffset howner hread hget
  · intro op ret s' c i hstep href
    exact step_kept hstep href
  intro c
  obtain ⟨⟨ret, s'⟩, hflush⟩ := isSome_iff_exists.mp (cacheFlush_isSome (c := c) hinv.acyclic 0)
  cases cacheFlush_eq_zero hnoError hflush
  obtain ⟨hmoves, hflushed⟩ := cacheFlush_spec 2 c s 0 s' hflush
  have hafter := hmirrors.moves hmoves.moves
  refine ⟨s', hflush, fun o t ho howner ht => ⟨?_, fun i hi hoffset => ?_⟩⟩
  · exact hafter.flushed (hflushed (le_refl 0)).1 ho howner ht
  · exact hafter.table c i hi (hoffset.symm ▸ ho) t (hoffset.symm ▸ ht)

def single : Caches Nat := create (fun _ => 1) (fun _ _ => 0) (fun _ => 5) fun _ => 0

def next (s : Caches α) (op : CacheOp α) : Caches α := ((s.step op).getD (0, s)).2

lemma Runs.next (hrun : Runs owner start s content) (hop : OwnerOp owner op)
    (hsome : (s.step op).isSome = true) :
    Runs owner start (s.next op) (s.contentAfter content op) := by
  obtain ⟨⟨ret, s'⟩, hstep⟩ := isSome_iff_exists.mp hsome
  have hnext : s.next op = s' := by rw [Caches.next, hstep, getD_some]
  exact hnext ▸ hrun.step hop hstep

/-- A table is modified, and its entry is taken for another one: the file has the new content. -/
theorem caches_hold_last_written_evicted :
    ∃ s content, Runs (fun _ => .l2Table) single s content ∧ content 512 = some 9 ∧
      (s.entry .l2Table 0).offset = 1024 ∧
      ∃ s', s.flush .l2Table = some (0, s') ∧ s'.file 512 = 9 := by
  have hrun : Runs (fun _ => .l2Table) single
      ((((single.next (.get .l2Table 512)).next (.modify .l2Table 0 9)).next (.put .l2Table 0)).next
        (.get .l2Table 1024)) _ :=
    .next (.next (.next (.next .start rfl (by decide +kernel)) trivial (by decide +kernel)) trivial
      (by decide +kernel)) rfl (by decide +kernel)
  obtain ⟨s', hflush, hfile⟩ :=
    (caches_hold_last_written _ _ _ (fun _ => le_refl 0) hrun).2.2.2.2 .l2Table
  exact ⟨_, _, hrun, by decide +kernel, by decide +kernel, s', hflush,
    (hfile 512 9 (by decide) rfl (by decide +kernel)).1⟩

/-- A table that has been got empty and is put back without being modified: it is obtained again
with a content that has never been written at its offset, and after a flush the file does not have
the content of the cache. -/
theorem getEmpty_not_written : ((single.run [.getEmpty .l2Table 512, .put .l2Table 0]).bind fun s =>
      (s.doGet .l2Table 512 true).map fun r =>
        (r.1, r.2.1, (r.2.2.entry .l2Table 0).table, r.2.2.file 512)) = some (0, some 0, 0, 5) ∧
    ((single.run [.getEmpty .l2Table 512, .put .l2Table 0]).bind fun s =>
      (s.flush .l2Table).map fun r => (r.1, (r.2.entry .l2Table 0).offset,
        (r.2.entry .l2Table 0).table, r.2.file 512)) = some (0, 512, 0, 5) := by
  constructor <;> decide +kernel

end QemuVmi.Qcow2.Caches
