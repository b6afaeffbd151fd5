import QemuVmi.Migration.RamStream

/-!
# Saving a page

While the guest runs, a page that is neither in the migration bitmap nor in the dirty log is on the
destination, and a page in the cache is there as it is cached (`Inv`).

Results:
1. `Inv.guest`: the guest keeps this.
2. `savePage_spec`: saving a page restores it for the page.
-/

namespace QemuVmi.Migration

open ByteRegion

def SamePage (data data' : Region) : Prop := ∀ k, k < targetPageSize → data k = data' k

lemma SamePage.refl (data : Region) : SamePage data data := fun _ _ => rfl

variable {new old data : Region}

lemma SamePage.trans {data' data'' : Region} (h : SamePage data data')
    (h' : SamePage data' data'') : SamePage data data'' := fun k hk => (h k hk).trans (h' k hk)

structure GuestStep (L : Layout) (w w' : SaveState) : Prop where
  bitmap : w'.bitmap = w.bitmap
  lastSeen : w'.lastSeen = w.lastSeen
  lastSent : w'.lastSent = w.lastSent
  lastOffset : w'.lastOffset = w.lastOffset
  bulk : w'.bulk = w.bulk
  cache : w'.cache = w.cache
  stream : w'.stream = w.stream
  running : w'.running = w.running
  /-- A page that is not in the log afterwards was not in it before, and was not written. -/
  logged : ∀ b i, w'.dirtyLog (L.nr b i) = false →
    w.dirtyLog (L.nr b i) = false ∧ SamePage (pageOf w.mem b i) (pageOf w'.mem b i)

section
variable {L : Layout} {w w' w'' : SaveState}

lemma GuestStep.refl (L : Layout) (w : SaveState) : GuestStep L w w :=
  ⟨rfl, rfl, rfl, rfl, rfl, rfl, rfl, rfl, fun _ _ h => ⟨h, .refl _⟩⟩

lemma GuestStep.trans (h : GuestStep L w w') (h' : GuestStep L w' w'') : GuestStep L w w'' where
  bitmap := h'.bitmap.trans h.bitmap
  lastSeen := h'.lastSeen.trans h.lastSeen
  lastSent := h'.lastSent.trans h.lastSent
  lastOffset := h'.lastOffset.trans h.lastOffset
  bulk := h'.bulk.trans h.bulk
  cache := h'.cache.trans h.cache
  stream := h'.stream.trans h.stream
  running := h'.running.trans h.running
  logged := fun b i hlog => by
    obtain ⟨hlog', hpage'⟩ := h'.logged b i hlog
    obtain ⟨hlog'', hpage⟩ := h.logged b i hlog'
    exact ⟨hlog'', hpage.trans hpage'⟩

lemma guestWrite_step (L : Layout) (w : SaveState) (write : PageWrite) :
    GuestStep L w (guestWrite L w write) where
  bitmap := rfl
  lastSeen := rfl
  lastSent := rfl
  lastOffset := rfl
  bulk := rfl
  cache := rfl
  stream := rfl
  running := rfl
  logged := fun b i hlog => by
    simp only [guestWrite, Bool.or_eq_false_iff, decide_eq_false_iff_not] at hlog
    refine ⟨hlog.2, fun k hk => ?_⟩
    simp only [guestWrite, pageOf]
    split
    next hb =>
      subst hb
      have hne : i ≠ write.page := by
        rintro rfl
        exact hlog.1 rfl
      have hsize : targetPageSize = 4096 := rfl
      rw [hsize] at hk ⊢
      exact (copy_of_ge (by omega)).symm
    · rfl

lemma guestWrites_step (L : Layout) (writes : List PageWrite) (w : SaveState) :
    GuestStep L w (guestWrites L w writes) := by
  induction writes generalizing w with
  | nil => exact .refl L w
  | cons write writes ih => exact (guestWrite_step L w write).trans (ih _)

lemma pause_step (L : Layout) (w : SaveState) : GuestStep L w (pause L w) := by
  unfold pause
  split
  · split
    · exact .refl L w
    next writes guest _ =>
      have hguest : GuestStep L w { w with guest := guest } :=
        ⟨rfl, rfl, rfl, rfl, rfl, rfl, rfl, rfl, fun _ _ h => ⟨h, .refl _⟩⟩
      exact hguest.trans (guestWrites_step L writes _)
  · exact .refl L w

lemma pause_of_stopped (h : w.running = false) : pause L w = w := by
  rw [pause, if_neg (by rw [h]; decide)]
end

def Current (mem : Nat → Region) (views : Nat → Nat → View) (b i : Nat) : Prop :=
  views b i = .live ∨ ∃ data, views b i = .known data ∧ SamePage data (pageOf mem b i)

/-- What is cached is what the destination has. In the last stage the cache is not kept up to date, and
this holds of the pages that are still to be sent, `current` among them. -/
def CacheOk (L : Layout) (last : Bool) (current : Option Nat) (bitmap : Nat → Bool)
    (views : Nat → Nat → View) (cache : PageCache) : Prop :=
  ∀ pos addr data, cache.items pos = some (addr, data) → pos = cache.pos addr ∧
    ∀ b i, L.Valid b i → L.nr b i = addr →
      (last = true → bitmap addr = true ∨ current = some addr) →
      ∃ data', views b i = .known data' ∧ SamePage data' data

/-- The invariant of a migration, while the page `current` is being saved. -/
structure Inv (L : Layout) (st₀ : LoadState) (last : Bool) (current : Option Nat) (w : SaveState)
    (views : Nat → Nat → View) : Prop where
  sound : Sound L st₀ w.stream w.lastSent views
  clean : ∀ b i, L.Valid b i → w.bitmap (L.nr b i) = false → w.dirtyLog (L.nr b i) = false →
    current ≠ some (L.nr b i) → Current w.mem views b i
  cached : ∀ cache, w.cache = some cache → CacheOk L last current w.bitmap views cache
  bulk : w.bulk = true → ∀ cache, w.cache = some cache → ∀ pos, cache.items pos = none

section
variable {L : Layout} {st₀ : LoadState} {last : Bool} {current : Option Nat} {w w' : SaveState}
  {views : Nat → Nat → View} {b i : Nat} {item : Item} {view : View} {bitmap : Nat → Bool}
  {cache : PageCache}

lemma Inv.guest (h : Inv L st₀ last current w views) (hstep : GuestStep L w w') :
    Inv L st₀ last current w' views where
  sound := by
    rw [hstep.stream, hstep.lastSent]
    exact h.sound
  clean := fun b i hvalid hbit hlog hcurrent => by
    obtain ⟨hlog', hpage⟩ := hstep.logged b i hlog
    rw [hstep.bitmap] at hbit
    rcases h.clean b i hvalid hbit hlog' hcurrent with hlive | ⟨data, hknown, hdata⟩
    · exact .inl hlive
    · exact .inr ⟨data, hknown, hdata.trans hpage⟩
  cached := by
    rw [hstep.cache, hstep.bitmap]
    exact h.cached
  bulk := by
    rw [hstep.cache, hstep.bulk]
    exact h.bulk

lemma setView_self (views : Nat → Nat → View) (b i : Nat) (view : View) :
    setView views b i view b i = view := if_pos rfl

lemma setView_of_ne {b' i' : Nat} (h : (b', i') ≠ (b, i)) :
    setView views b i view b' i' = views b' i' := if_neg h

variable (h : CacheOk L last current bitmap views cache)

include h in
lemma CacheOk.done : CacheOk L last none bitmap views cache := fun pos addr stored hitem => by
  obtain ⟨hpos, hdata⟩ := h pos addr stored hitem
  exact ⟨hpos, fun b i hvalid hnr hlast =>
    hdata b i hvalid hnr fun hl => (hlast hl).imp_right nofun⟩

include h in
lemma CacheOk.insert (hvalid : L.Valid b i)
    (hview : (∃ data', view = .known data' ∧ SamePage data' data) ∨
      last = true ∧ bitmap (L.nr b i) = false) :
    CacheOk L last none bitmap (setView views b i view) (cache.insert (L.nr b i) data) := by
  intro pos addr stored hitem
  simp only [PageCache.insert] at hitem
  split at hitem
  next hpos =>
    cases hitem
    refine ⟨hpos, fun b' i' hvalid' hnr hlast => ?_⟩
    obtain ⟨rfl, rfl⟩ := Layout.nr_inj hvalid' hvalid hnr
    rw [setView_self]
    rcases hview with hknown | ⟨hl, hbit⟩
    · exact hknown
    rcases hlast hl with hset | hcurrent
    · rw [hbit] at hset
      cases hset
    · cases hcurrent
  next hpos =>
    obtain ⟨hpos', hdata⟩ := h pos addr stored hitem
    refine ⟨hpos', fun b' i' hvalid' hnr hlast => ?_⟩
    have hne : (b', i') ≠ (b, i) := by
      rintro ⟨⟩
      rw [hpos', hnr] at hpos
      exact hpos rfl
    rw [setView_of_ne hne]
    exact hdata b' i' hvalid' hnr fun hl => (hlast hl).imp_right nofun

lemma CacheOk.skip (h : CacheOk L last (some (L.nr b i)) bitmap views cache)
    (hskip : cache.isCached (L.nr b i) = false ∨ last = true ∧ bitmap (L.nr b i) = false) :
    CacheOk L last none bitmap (setView views b i view) cache := by
  intro pos addr stored hitem
  obtain ⟨hpos, hdata⟩ := h pos addr stored hitem
  refine ⟨hpos, fun b' i' hvalid' hnr hlast => ?_⟩
  by_cases hne : (b', i') = (b, i)
  · cases hne
    rcases hskip with habsent | ⟨hl, hbit⟩
    · rw [PageCache.isCached, hnr, ← hpos, hitem] at habsent
      exact absurd rfl (of_decide_eq_false habsent)
    rcases hlast hl with hset | hcurrent
    · rw [← hnr, hbit] at hset
      cases hset
    · cases hcurrent
  · rw [setView_of_ne hne]
    exact hdata b' i' hvalid' hnr fun hl => (hlast hl).imp_right nofun

lemma Inv.send (h : Inv L st₀ last (some (L.nr b i)) w views) (hvalid : L.Valid b i)
    (hfits : Fits w.lastSent views b i item view)
    (hview : view = .live ∨ ∃ data, view = .known data ∧ SamePage data (pageOf w.mem b i))
    (hstream : w'.stream = w.stream ++ [item]) (hlastSent : w'.lastSent = some b)
    (hmem : w'.mem = w.mem) (hbitmap : w'.bitmap = w.bitmap) (hlog : w'.dirtyLog = w.dirtyLog)
    (hcached : ∀ cache, w'.cache = some cache →
      CacheOk L last none w.bitmap (setView views b i view) cache)
    (hbulk : w'.bulk = true → ∀ cache, w'.cache = some cache → ∀ pos, cache.items pos = none) :
    Inv L st₀ last none w' (setView views b i view) where
  sound := by
    rw [hstream, hlastSent]
    exact h.sound.emit hvalid hfits
  clean := fun b' i' hvalid' hbit hlog' _ => by
    rw [hbitmap] at hbit
    rw [hlog] at hlog'
    rw [hmem, Current]
    by_cases hne : (b', i') = (b, i)
    · cases hne
      rwa [setView_self]
    rw [setView_of_ne hne]
    refine h.clean b' i' hvalid' hbit hlog' fun hnr => hne ?_
    obtain ⟨rfl, rfl⟩ := Layout.nr_inj hvalid hvalid' (Option.some.inj hnr)
    rfl
  cached := by
    rwa [hbitmap]
  bulk := hbulk
end

lemma encodeStep_ge {W slen d i : Nat} {dlen r : Int} {out out' : OutBuf}
    (h : encodeStep W old new slen dlen d i out = some (.ret r out')) : -1 ≤ r := by
  unfold encodeStep at h
  split at h
  · cases h
    decide
  obtain ⟨z, -, h⟩ := Option.bind_eq_some_iff.mp h
  split at h
  · cases h
    decide
  split at h
  · cases h
    omega
  obtain ⟨u, -, h⟩ := Option.bind_eq_some_iff.mp h
  unfold encodeNonzeroRun at h
  split at h
  · cases h
    decide
  obtain ⟨nz, -, h⟩ := Option.bind_eq_some_iff.mp h
  obtain ⟨v, -, h⟩ := Option.map_eq_some_iff.mp h
  split at h
  · cases h
    decide
  · cases h

lemma encodeLoop_ge {W slen : Nat} {dlen : Int} (fuel : Nat) : ∀ {d i : Nat}
    {r : Int} {out out' : OutBuf}, encodeLoop W old new slen dlen fuel d i out = some (r, out') →
    -1 ≤ r := by
  induction fuel with
  | zero =>
    intro d i r out out' h
    cases h
  | succ fuel ih =>
    intro d i r out out' h
    rw [encodeLoop] at h
    split at h
    · obtain ⟨step, hstep, h⟩ := Option.bind_eq_some_iff.mp h
      cases step with
      | ret r' out'' =>
        cases h
        exact encodeStep_ge hstep
      | next d' i' out'' => exact ih h
    · cases h
      omega

lemma encode_page {W : Nat} (hW : W = 4 ∨ W = 8) (old new : Region) :
    ∃ r out, xbzrleEncodeBuffer W old new targetPageSize (fun _ => 0#8) targetPageSize = some (r, out) ∧
      -1 ≤ r ∧ Encoded old new targetPageSize targetPageSize r out := by
  have hmod : targetPageSize % W = 0 := by rcases hW with rfl | rfl <;> rfl
  obtain ⟨r, out, hrun, hok⟩ := encodeLoop_spec
    (EncodeInv.init old new (fun _ => 0#8) targetPageSize targetPageSize) (by omega : 0 < W) (by omega)
    (by decide) (Nat.lt_succ_of_le (Nat.sub_le targetPageSize 0))
  exact ⟨r, out, by rw [xbzrleEncodeBuffer, if_pos hmod, hrun], encodeLoop_ge _ hrun, hok⟩

structure Saved (w w' : SaveState) : Prop where
  bitmap : w'.bitmap = w.bitmap
  lastSeen : w'.lastSeen = w.lastSeen
  lastOffset : w'.lastOffset = w.lastOffset
  bulk : w'.bulk = w.bulk
  running : w'.running = w.running
  stopped : w.running = false → w'.mem = w.mem ∧ w'.dirtyLog = w.dirtyLog

lemma Saved.trans {w w' w'' : SaveState} (h : Saved w w') (h' : Saved w' w'') : Saved w w'' where
  bitmap := h'.bitmap.trans h.bitmap
  lastSeen := h'.lastSeen.trans h.lastSeen
  lastOffset := h'.lastOffset.trans h.lastOffset
  bulk := h'.bulk.trans h.bulk
  running := h'.running.trans h.running
  stopped := fun hstop => by
    obtain ⟨hmem, hlog⟩ := h.stopped hstop
    obtain ⟨hmem', hlog'⟩ := h'.stopped (h.running.trans hstop)
    exact ⟨hmem'.trans hmem, hlog'.trans hlog⟩

lemma saved_pause (L : Layout) (w : SaveState) : Saved w (pause L w) where
  bitmap := (pause_step L w).bitmap
  lastSeen := (pause_step L w).lastSeen
  lastOffset := (pause_step L w).lastOffset
  bulk := (pause_step L w).bulk
  running := (pause_step L w).running
  stopped := fun hstop => by
    rw [pause_of_stopped hstop]
    exact ⟨rfl, rfl⟩

def PageDone (L : Layout) (st₀ : LoadState) (last : Bool) (w w' : SaveState) (b i : Nat)
    (views : Nat → Nat → View) : Bool → Prop
  | true => ∀ seen offset, ∃ views', Inv L st₀ last none
      { w' with lastSent := some b, lastSeen := seen, lastOffset := offset } views'
  | false => Inv L st₀ last none w' views ∧ w'.cache = w.cache ∧
      ∃ cache, w.cache = some cache ∧ cache.isCached (L.nr b i) = true

variable {cache : PageCache}

section
variable {L : Layout} {W : Nat} {st₀ : LoadState} {last : Bool} {w : SaveState}
  {views : Nat → Nat → View} {b i : Nat}

lemma isCached_iff {addr : Nat} :
    cache.isCached addr = true ↔ ∃ data, cache.items (cache.pos addr) = some (addr, data) := by
  unfold PageCache.isCached
  split
  next hitem => simp [hitem]
  rename_i item hitem
  rw [hitem, decide_eq_true_eq]
  constructor
  · rintro rfl
    exact ⟨item.2, rfl⟩
  · rintro ⟨data, heq⟩
    cases heq
    rfl

variable {item : Item} {view : View} (hW : W = 4 ∨ W = 8)
  (h : Inv L st₀ last (some (L.nr b i)) w views) (hvalid : L.Valid b i)
  (hfits : Fits w.lastSent views b i item view)
  (hview : view = .live ∨ ∃ data, view = .known data ∧ SamePage data (pageOf w.mem b i))

include h hvalid hfits hview in
lemma Inv.emit_cached {c : Option PageCache} (hbulk : w.bulk = false) (hcache : c = some cache)
    (hok : CacheOk L last none w.bitmap (setView views b i view) cache) :
    Saved w (emit { w with cache := c } item) ∧
      PageDone L st₀ last w (emit { w with cache := c } item) b i views true := by
  refine ⟨⟨rfl, rfl, rfl, rfl, rfl, fun _ => ⟨rfl, rfl⟩⟩, fun seen offset => ?_⟩
  refine ⟨_, h.send hvalid hfits hview rfl rfl rfl rfl rfl (fun cache' hcache' => ?_) fun hb => ?_⟩
  · cases hcache.symm.trans hcache'
    exact hok
  · exact absurd (hb.symm.trans hbulk) (by decide)

variable (hclear : w.bitmap (L.nr b i) = false) (hbulk : w.bulk = false)
  (hcache : w.cache = some cache)

include h hvalid hbulk hcache in
lemma saveXbzrlePage_absent (habsent : cache.isCached (L.nr b i) = false) :
    ∃ w', saveXbzrlePage L W last w b i cache = some (w', true) ∧ Saved w w' ∧
      PageDone L st₀ last w w' b i views true := by
  have hcont : decide (w.lastSent = some b) = true → w.lastSent = some b := of_decide_eq_true
  have hok := h.cached cache hcache
  have hstep := pause_step L w
  unfold saveXbzrlePage
  rw [if_pos (by rw [habsent]; rfl)]
  cases last with
  | true =>
    exact ⟨_, if_pos rfl,
      h.emit_cached hvalid (.live hcont) (.inl rfl) hbulk hcache (hok.skip (.inl habsent))⟩
  | false =>
    have hcont' := fun hc => hstep.lastSent.trans (hcont hc)
    refine ⟨_, if_neg (by decide), And.imp_left (saved_pause L w).trans ((h.guest hstep).emit_cached
      hvalid (.page hcont') (.inr ⟨_, rfl, .refl _⟩) (hstep.bulk.trans hbulk) rfl ?_)⟩
    rw [hstep.bitmap]
    exact hok.insert hvalid (.inl ⟨_, rfl, .refl _⟩)

include hW h hvalid hclear hbulk hcache in
lemma saveXbzrlePage_cached (hcached : cache.isCached (L.nr b i) = true) :
    ∃ w' sent, saveXbzrlePage L W last w b i cache = some (w', sent) ∧ Saved w w' ∧
      PageDone L st₀ last w w' b i views sent := by
  have hcont : decide (w.lastSent = some b) = true → w.lastSent = some b := of_decide_eq_true
  have hok := h.cached cache hcache
  have hstep := pause_step L w
  have hstep₂ := hstep.trans (pause_step L (pause L w))
  obtain ⟨prev, hitem⟩ := isCached_iff.mp hcached
  have hdata : cache.data (L.nr b i) = some prev := by rw [PageCache.data, hitem]; rfl
  obtain ⟨data, hknown, hsame⟩ := (hok _ _ _ hitem).2 b i hvalid rfl fun _ => .inr rfl
  obtain ⟨r, out, hencode, hge, hencoded⟩ := encode_page hW prev (pageOf (pause L w).mem b i)
  unfold saveXbzrlePage
  rw [if_neg (by rw [hcached]; decide), hdata]
  dsimp only [Option.bind_eq_bind, Option.bind_some]
  rw [hencode, Option.bind_some]
  by_cases hzero : r = 0
  · -- the destination has the page as it is cached, and it is unchanged
    refine ⟨_, false, if_pos hzero, saved_pause L w, ?_, hstep.cache, cache, hcache, hcached⟩
    have hpause := h.guest hstep
    refine ⟨hpause.sound, fun b' i' hvalid' hbit hlog _ => ?_, fun cache' hcache' =>
      (hpause.cached cache' hcache').done, hpause.bulk⟩
    by_cases hne : L.nr b i = L.nr b' i'
    · obtain ⟨rfl, rfl⟩ := Layout.nr_inj hvalid hvalid' hne
      have hunchanged : SamePage prev (pageOf (pause L w).mem b i) := by
        rcases hencoded.zero.mp hzero with hempty | ⟨hall, -⟩
        · cases hempty
        · exact hall
      exact .inr ⟨data, hknown, hsame.trans hunchanged⟩
    · exact hpause.clean b' i' hvalid' hbit hlog fun heq => hne (Option.some.inj heq)
  rw [if_neg hzero]
  by_cases hover : r = -1
  · refine ⟨_, true, if_pos hover,
      And.imp_left ((saved_pause L w).trans (saved_pause L _)).trans ?_⟩
    have hcont' := fun hc => hstep₂.lastSent.trans (hcont hc)
    have hnobulk := hstep₂.bulk.trans hbulk
    cases last with
    | true =>
      refine (h.guest hstep₂).emit_cached hvalid (.live hcont') (.inl rfl) hnobulk rfl ?_
      rw [hstep₂.bitmap]
      exact hok.insert hvalid (.inr ⟨rfl, hclear⟩)
    | false =>
      refine (h.guest hstep₂).emit_cached hvalid (.page hcont') (.inr ⟨_, rfl, .refl _⟩) hnobulk rfl ?_
      rw [hstep₂.bitmap]
      exact hok.insert hvalid (.inl ⟨_, rfl, .refl _⟩)
  · rw [if_neg hover]
    obtain ⟨hle, ret, page, hdecode, hret, hpage⟩ := hencoded.decodes (by omega)
    -- the destination decodes from what it has
    obtain ⟨page', hdecode', hpage'⟩ := @decodeLoop_congr _ _ _ _ _ _ prev data _ _ hdecode
    have hnew : SamePage page' (pageOf (pause L w).mem b i) := fun k hk =>
      (hpage' k (hsame k hk).symm).symm.trans (hpage k hk)
    have hfits : Fits (pause L w).lastSent views b i
        (.xbzrle (decide (w.lastSent = some b)) b i r.toNat out.mem) (.known page') :=
      .xbzrle (fun hc => hstep.lastSent.trans (hcont hc)) hknown (by omega) hdecode' hret
    have hnobulk := hstep.bulk.trans hbulk
    refine ⟨_, true, rfl, And.imp_left (saved_pause L w).trans ?_⟩
    cases last with
    | true =>
      refine (h.guest hstep).emit_cached hvalid hfits (.inr ⟨_, rfl, hnew⟩) hnobulk
        (hstep.cache.trans hcache) ?_
      rw [hstep.bitmap]
      exact hok.skip (.inr ⟨rfl, hclear⟩)
    | false =>
      refine (h.guest hstep).emit_cached hvalid hfits (.inr ⟨_, rfl, hnew⟩) hnobulk rfl ?_
      rw [hstep.bitmap]
      exact hok.insert hvalid (.inl ⟨_, rfl, hnew⟩)

include hW h hvalid hclear hbulk hcache in
lemma saveXbzrlePage_spec :
    ∃ w' sent, saveXbzrlePage L W last w b i cache = some (w', sent) ∧ Saved w w' ∧
      PageDone L st₀ last w w' b i views sent := by
  cases hcached : cache.isCached (L.nr b i) with
  | false =>
    obtain ⟨w', hrun, hrest⟩ := saveXbzrlePage_absent h hvalid hbulk hcache hcached
    exact ⟨w', true, hrun, hrest⟩
  | true => exact saveXbzrlePage_cached hW h hvalid hclear hbulk hcache hcached

lemma isZeroRange_iff {region : Region} {offset size : Nat} :
    isZeroRange region offset size = true ↔ ∀ k, k < size → region (offset + k) = 0#8 := by
  simp [isZeroRange]

include h hvalid hfits hview in
lemma Inv.emit_uncached (hempty : ∀ cache, w.cache = some cache → ∀ pos, cache.items pos = none) :
    Saved w (emit w item) ∧ PageDone L st₀ last w (emit w item) b i views true := by
  refine ⟨⟨rfl, rfl, rfl, rfl, rfl, fun _ => ⟨rfl, rfl⟩⟩, fun seen offset => ?_⟩
  refine ⟨_, h.send hvalid hfits hview rfl rfl rfl rfl rfl ?_ fun _ => hempty⟩
  intro cache hcache pos addr data hitem
  rw [hempty cache hcache] at hitem
  cases hitem

include hW h hvalid hclear in
lemma savePage_spec : ∃ w' sent, savePage L W last w b i = some (w', sent) ∧ Saved w w' ∧
      PageDone L st₀ last w w' b i views sent ∧ (sent = false → w.bulk = false) := by
  have hstep := pause_step L w
  have hpause := h.guest hstep
  have hsaved := saved_pause L w
  have hcont : decide ((pause L w).lastSent = some b) = true → (pause L w).lastSent = some b :=
    of_decide_eq_true
  unfold savePage
  dsimp only
  split
  next hzero =>
    have hpage : SamePage (fun _ => 0#8) (pageOf (pause L w).mem b i) := fun k hk =>
      (isZeroRange_iff.mp hzero k hk).symm
    have hsend := hpause.emit_uncached hvalid (.zero hcont) (.inr ⟨_, rfl, hpage⟩)
    split
    next hnone =>
      obtain ⟨hemit, hdone⟩ := hsend fun cache hcache => absurd (hnone.symm.trans hcache) nofun
      exact ⟨_, true, rfl, hsaved.trans hemit, hdone, nofun⟩
    rename_i cache hcache
    by_cases hbulk : (pause L w).bulk = true
    · obtain ⟨hemit, hdone⟩ := hsend (hpause.bulk hbulk)
      exact ⟨_, true, if_pos hbulk, hsaved.trans hemit, hdone, nofun⟩
    obtain ⟨hemit, hdone⟩ := hpause.emit_cached hvalid (.zero hcont) (.inr ⟨_, rfl, hpage⟩)
      (eq_false_of_ne_true hbulk) rfl
      ((hpause.cached cache hcache).insert hvalid (.inl ⟨_, rfl, .refl _⟩))
    exact ⟨_, true, if_neg hbulk, hsaved.trans hemit, hdone, nofun⟩
  · have hsend := hpause.emit_uncached hvalid (.live hcont) (.inl rfl)
    split
    next hnone =>
      obtain ⟨hemit, hdone⟩ := hsend fun cache hcache => absurd (hnone.symm.trans hcache) nofun
      exact ⟨_, true, rfl, hsaved.trans hemit, hdone, nofun⟩
    rename_i cache hcache
    by_cases hbulk : (pause L w).bulk = true
    · obtain ⟨hemit, hdone⟩ := hsend (hpause.bulk hbulk)
      exact ⟨_, true, if_pos hbulk, hsaved.trans hemit, hdone, nofun⟩
    have hnobulk : (pause L w).bulk = false := eq_false_of_ne_true hbulk
    have hclear' : (pause L w).bitmap (L.nr b i) = false := by rwa [hstep.bitmap]
    obtain ⟨w', sent, hrun, hsaved', hdone⟩ :=
      saveXbzrlePage_spec hW hpause hvalid hclear' hnobulk hcache
    refine ⟨w', sent, (if_neg hbulk).trans hrun, hsaved.trans hsaved', ?_,
      fun _ => hstep.bulk.symm.trans hnobulk⟩
    cases sent with
    | true => exact hdone
    | false =>
      rwa [PageDone, ← hstep.cache]
end

end QemuVmi.Migration
