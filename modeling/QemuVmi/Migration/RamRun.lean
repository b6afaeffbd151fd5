import QemuVmi.Migration.RamTransfer

/-!
# The destination has the memory of the source

`ram_save_block` keeps the invariant of a migration if it does not drop a page. It drops one at the end
of the bulk stage: the search then starts behind the last page that was sent, comes back to it after a
complete round, clears its bit and stops (`endsBulk`).

Results:
1. `saveLoop_spec`: `ram_save_block` returns, keeps the invariant, and sends nothing only if nothing is
   dirty.
2. `ram_migration_equal`: the memories are equal after every migration that drops no page.
-/

namespace QemuVmi.Migration

open ByteRegion List

/-! ## Where the search is -/

def After (b₀ o₀ b i : Nat) : Prop := b₀ < b ∨ b₀ = b ∧ o₀ < i

structure Cursor (L : Layout) (w : SaveState) : Prop where
  seen : ∀ b, w.lastSeen = some b → b < L.blocks.length ∧ w.lastOffset ≤ L.pages b
  first : w.lastSeen = none → w.bulk = true ∧ w.lastOffset = 0
  /-- In the bulk stage, everything behind is still to be sent. -/
  ahead : w.bulk = true → ∀ b i, L.Valid b i →
    (∀ b₀, w.lastSeen = some b₀ → After b₀ w.lastOffset b i) → w.bitmap (L.nr b i) = true

/-- The bulk stage has sent the last page of the block, which is dirty again, and nothing else is. -/
def endsBulk (L : Layout) (w : SaveState) : Bool :=
  match w.lastSeen with
  | none => false
  | some b =>
    w.bulk && decide (0 < w.lastOffset) && decide (w.lastOffset + 1 = L.pages b) &&
      w.bitmap (L.nr b w.lastOffset) &&
      L.allPages.all fun p => p = (b, w.lastOffset) || !w.bitmap (L.nr p.1 p.2)

lemma findNextBit_spec {bit : Nat → Bool} {size start : Nat} (h : start ≤ size) :
    start ≤ findNextBit bit size start ∧ findNextBit bit size start ≤ size ∧
      (∀ j, start ≤ j → j < findNextBit bit size start → bit j = false) ∧
      (findNextBit bit size start < size → bit (findNextBit bit size start) = true) := by
  unfold findNextBit
  cases hfind : (range' start (size - start)).find? bit with
  | none =>
    rw [List.find?_eq_none] at hfind
    refine ⟨h, le_refl _, fun j hlo hhi => ?_, fun hlt => absurd hlt (lt_irrefl _)⟩
    rw [Option.getD_none] at hhi
    exact eq_false_of_ne_true (hfind j (mem_range'_1.mpr ⟨hlo, by omega⟩))
  | some j =>
    obtain ⟨hbit, hmem, hbefore⟩ := List.find?_range'_eq_some.mp hfind
    rw [mem_range'_1] at hmem
    refine ⟨hmem.1, by rw [Option.getD_some]; omega, fun k hlo hhi => ?_, fun _ => hbit⟩
    exact Bool.not_eq_true' _ ▸ hbefore k hlo hhi

def resetDirty (w : SaveState) (nr : Nat) : SaveState :=
  { w with bitmap := fun n => if n = nr then false else w.bitmap n }

@[simp] lemma resetDirty_self (w : SaveState) (nr : Nat) : (resetDirty w nr).bitmap nr = false :=
  if_pos rfl

variable {w w' : SaveState}

lemma resetDirty_of_ne {nr n : Nat} (h : n ≠ nr) :
    (resetDirty w nr).bitmap n = w.bitmap n := if_neg h

lemma resetDirty_mono {nr n : Nat} (h : (resetDirty w nr).bitmap n = true) :
    w.bitmap n = true := by
  by_cases hn : n = nr
  · rw [hn, resetDirty_self] at h
    cases h
  · rwa [resetDirty_of_ne hn] at h

/-- The page that `saveLoop` may not look at before it comes back to it: the first step of the search
starts behind it. -/
def Exempt (L : Layout) (w₀ : SaveState) (b₀ b i : Nat) : Prop :=
  w₀.bulk = true ∧ 0 < w₀.lastOffset ∧ w₀.lastOffset + 1 = L.pages b₀ ∧ b = b₀ ∧ i = w₀.lastOffset

/-- The pages that the loop has looked at, from the state `w₀` at the block `b₀`, when it gets to the
offset. -/
def Scanned (L : Layout) (w₀ : SaveState) (b₀ b offset : Nat) (complete : Bool) (b' i : Nat) : Prop :=
  let before := b' < b ∨ b' = b ∧ i < offset
  let behind := (b₀ < b' ∨ b₀ = b' ∧ w₀.lastOffset ≤ i) ∧ ¬ Exempt L w₀ b₀ b' i
  if complete then behind ∨ before else behind ∧ before

/-- The invariant of the loop of `ram_save_block`. -/
structure LoopInv (L : Layout) (st₀ : LoadState) (last : Bool) (w₀ : SaveState) (b₀ : Nat)
    (w : SaveState) (b offset : Nat) (complete : Bool) (views : Nat → Nat → View) : Prop where
  inv : Inv L st₀ last none w views
  saved : Saved { w₀ with bitmap := w.bitmap, bulk := w.bulk } w
  lt : b < L.blocks.length
  le : offset ≤ L.pages b
  bulk : w.bulk = (w₀.bulk && !complete)
  /-- Nothing is looked at without being sent until the bulk stage is over. -/
  bitmap : w₀.bulk = true → w.bitmap = w₀.bitmap
  cache : w₀.bulk = true → ∀ cache, w.cache = some cache → ∀ pos, cache.items pos = none
  mono : ∀ n, w.bitmap n = true → w₀.bitmap n = true
  start : w.bulk = true → offset = 0 ∨ b = b₀ ∧ offset = w₀.lastOffset
  scanned : ∀ b' i, L.Valid b' i → Scanned L w₀ b₀ b offset complete b' i →
    w.bitmap (L.nr b' i) = false
  place : if complete then b < b₀ ∨ b = b₀ ∧ offset ≤ w₀.lastOffset
    else b₀ < b ∨ b = b₀ ∧ w₀.lastOffset ≤ offset

section
variable {L : Layout} {W : Nat} {st₀ : LoadState} {last : Bool} {w₀ w : SaveState} {b₀ b offset : Nat}
  {complete : Bool} {views : Nat → Nat → View}

/-- What `migration_bitmap_find_and_reset_dirty` finds. -/
structure Found (L : Layout) (w₀ : SaveState) (b₀ : Nat) (w : SaveState) (b offset next : Nat) :
    Prop where
  ge : offset ≤ next
  set : next < L.pages b → w.bitmap (L.nr b next) = true
  none : L.pages b ≤ next → ∀ j, offset ≤ j → j < L.pages b →
    w.bitmap (L.nr b j) = false ∨ Exempt L w₀ b₀ b j
  scan : w.bulk = false → next ≤ L.pages b ∧ ∀ j, offset ≤ j → j < next → w.bitmap (L.nr b j) = false

variable (h : LoopInv L st₀ last w₀ b₀ w b offset complete views)
  (hcursor : Cursor L w₀) (hseen : ∀ b, w₀.lastSeen = some b → b = b₀)

include h hcursor hseen in
lemma LoopInv.find :
    ∃ next, Found L w₀ b₀ w b offset next ∧ findAndResetDirty L w b offset =
      (next, if next < L.pages b then resetDirty w (L.nr b next) else w) := by
  obtain ⟨hge, hle, hclear, hset⟩ := @findNextBit_spec (fun i => w.bitmap (L.nr b i)) _ _ h.le
  unfold findAndResetDirty
  cases hjump : w.bulk && decide (offset > 0) with
  | false =>
    refine ⟨_, ⟨hge, hset, fun hnone j hlo hhi => .inl (hclear j hlo (by omega)), fun _ =>
      ⟨hle, hclear⟩⟩, ?_⟩
    rw [if_neg Bool.false_ne_true]
    dsimp only
    split <;> rfl
  | true =>
    simp only [Bool.and_eq_true, decide_eq_true_eq] at hjump
    obtain ⟨hbulk, hpos⟩ := hjump
    -- this is the first step: the search starts behind the page that was sent last
    obtain ⟨rfl, rfl⟩ : b = b₀ ∧ offset = w₀.lastOffset := by
      rcases h.start hbulk with hzero | hstart
      · omega
      · exact hstart
    have hbulk₀ : w₀.bulk = true := by
      have hb := h.bulk
      rw [hbulk] at hb
      exact (Bool.and_eq_true_iff.mp hb.symm).1
    refine ⟨w₀.lastOffset + 1, ⟨by omega, fun hlt => ?_, fun hge j hlo hhi => ?_, fun hb => ?_⟩, ?_⟩
    · rw [h.bitmap hbulk₀]
      refine hcursor.ahead hbulk₀ b _ ⟨h.lt, hlt⟩ fun b' hb' => ?_
      exact .inr ⟨hseen b' hb', Nat.lt_succ_self _⟩
    · exact .inr ⟨hbulk₀, hpos, by omega, rfl, by omega⟩
    · rw [hbulk] at hb
      cases hb
    · rw [if_pos rfl]
      dsimp only
      split <;> rfl

variable {next : Nat}

lemma LoopInv.all_clear (h : LoopInv L st₀ last w₀ b₀ w b₀ offset true views)
    (hfound : Found L w₀ b₀ w b₀ offset next) (hseen : w₀.lastSeen = some b₀)
    (hends : endsBulk L w₀ = false) (hge : w₀.lastOffset ≤ next) :
    next = L.pages b₀ ∧ ∀ b i, L.Valid b i → w.bitmap (L.nr b i) = false := by
  have hbulk : w.bulk = false := h.bulk.trans (Bool.and_false _)
  obtain ⟨hle, hscan⟩ := hfound.scan hbulk
  have hoffset : offset ≤ w₀.lastOffset := by
    have hplace := h.place
    rw [if_pos rfl] at hplace
    omega
  have hclear : ∀ b i, L.Valid b i → ¬ Exempt L w₀ b₀ b i → w.bitmap (L.nr b i) = false := by
    intro b i hvalid hexempt
    by_cases hin : b = b₀ ∧ offset ≤ i ∧ i < w₀.lastOffset
    · obtain ⟨rfl, hlo, hhi⟩ := hin
      exact hscan i hlo (by omega)
    refine h.scanned b i hvalid ?_
    rw [Scanned, if_pos rfl]
    by_cases hbehind : b₀ < b ∨ b₀ = b ∧ w₀.lastOffset ≤ i
    · exact .inl ⟨hbehind, hexempt⟩
    · exact .inr (by omega)
  have hnext : next = L.pages b₀ := by
    by_contra hne
    have hlt : next < L.pages b₀ := by omega
    have hset := hfound.set hlt
    have hexempt : Exempt L w₀ b₀ b₀ next := by
      by_contra hexempt
      exact absurd (hset.symm.trans (hclear b₀ next ⟨h.lt, hlt⟩ hexempt)) (by decide)
    obtain ⟨hbulk₀, hpos, hlast, -, rfl⟩ := hexempt
    -- it is the page that the search had started behind, and nothing else is dirty
    rw [h.bitmap hbulk₀] at hset hclear
    simp only [endsBulk, hseen, hbulk₀, hpos, hlast, hset, decide_true, Bool.true_and,
      all_eq_false, Bool.or_eq_true, decide_eq_true_eq, not_or, Bool.not_eq_true',
      Prod.exists] at hends
    obtain ⟨b, i, hmem, hne', hdirty⟩ := hends
    refine hdirty (hclear b i (Layout.mem_allPages.mp hmem) ?_)
    rintro ⟨-, -, -, rfl, rfl⟩
    exact hne' rfl
  refine ⟨hnext, fun b i hvalid => ?_⟩
  by_cases hexempt : Exempt L w₀ b₀ b i
  · obtain ⟨-, -, hlast, rfl, rfl⟩ := hexempt
    exact hscan _ hoffset (by omega)
  · exact hclear b i hvalid hexempt

variable (hfound : Found L w₀ b₀ w b offset next)

include h hfound in
lemma LoopInv.move (hnext : L.pages b ≤ next)
    (hcomplete : complete = true → b ≠ b₀) (hlt : b + 1 < L.blocks.length) :
    LoopInv L st₀ last w₀ b₀ w (b + 1) 0 complete views := by
  have hplace := h.place
  refine ⟨h.inv, h.saved, hlt, Nat.zero_le _, h.bulk, h.bitmap, h.cache, h.mono, fun _ => .inl rfl,
    fun b' i hvalid hscanned => ?_, ?_⟩
  · -- the pages of the block have been looked at
    have hblock : b' = b → offset ≤ i → w.bitmap (L.nr b' i) = false ∨ Exempt L w₀ b₀ b' i := by
      rintro rfl hi
      exact hfound.none hnext i hi hvalid.2
    by_cases hnew : b' = b ∧ offset ≤ i
    · rcases hblock hnew.1 hnew.2 with hclear | hexempt
      · exact hclear
      · cases complete with
        | false => exact absurd hexempt hscanned.1.2
        | true => exact absurd (hnew.1.symm.trans hexempt.2.2.2.1) (hcomplete rfl)
    refine h.scanned b' i hvalid ?_
    cases complete with
    | false =>
      obtain ⟨hbehind, hbefore⟩ := hscanned
      exact ⟨hbehind, by omega⟩
    | true =>
      rcases hscanned with hbehind | hbefore
      · exact .inl hbehind
      · exact .inr (by omega)
  · cases complete with
    | false =>
      simp only [Bool.false_eq_true, if_false] at hplace ⊢
      omega
    | true =>
      have hne := hcomplete rfl
      simp only [if_true] at hplace ⊢
      omega

lemma LoopInv.wrap (h : LoopInv L st₀ last w₀ b₀ w b offset false views)
    (hfound : Found L w₀ b₀ w b offset next) (hnext : L.pages b ≤ next)
    (hlast : ¬ b + 1 < L.blocks.length) :
    LoopInv L st₀ last w₀ b₀ { w with bulk := false } 0 0 true views := by
  have hlt := h.lt
  have hsaved := h.saved
  refine ⟨⟨h.inv.sound, h.inv.clean, h.inv.cached, nofun⟩,
    ⟨rfl, hsaved.lastSeen, hsaved.lastOffset, rfl, hsaved.running, hsaved.stopped⟩, by omega,
    Nat.zero_le _, (Bool.and_false _).symm, h.bitmap, h.cache, h.mono, nofun,
    fun b' i hvalid hscanned => ?_, ?_⟩
  · have hb' := hvalid.1
    rcases hscanned with hbehind | hbefore
    · by_cases hnew : b' = b ∧ offset ≤ i
      · obtain ⟨rfl, hi⟩ := hnew
        rcases hfound.none hnext i hi hvalid.2 with hclear | hexempt
        · exact hclear
        · exact absurd hexempt hbehind.2
      · exact h.scanned b' i hvalid ⟨hbehind, by omega⟩
    · omega
  · simp only [if_true]
    omega

lemma Inv.reset (h : Inv L st₀ last none w views) {i : Nat} (hset : w.bitmap (L.nr b i) = true) :
    Inv L st₀ last (some (L.nr b i)) (resetDirty w (L.nr b i)) views where
  sound := h.sound
  clean := fun b' i' hvalid hbit hlog hcurrent => by
    have hne : L.nr b' i' ≠ L.nr b i := fun heq => hcurrent (by rw [heq])
    rw [resetDirty_of_ne hne] at hbit
    exact h.clean b' i' hvalid hbit hlog nofun
  cached := fun cache hcache pos addr data hitem => by
    obtain ⟨hpos, hdata⟩ := h.cached cache hcache pos addr data hitem
    refine ⟨hpos, fun b' i' hvalid hnr hlast => hdata b' i' hvalid hnr fun hl => .inl ?_⟩
    rcases hlast hl with hbit | hcurrent
    · exact resetDirty_mono hbit
    · cases hcurrent
      exact hset
  bulk := h.bulk

include h hfound in
lemma LoopInv.skip (hnext : next < L.pages b)
    (hcomplete : complete = true → b = b₀ → next < w₀.lastOffset)
    (hsaved : Saved (resetDirty w (L.nr b next)) w') (hinv : Inv L st₀ last none w' views)
    (hbulk : w.bulk = false) {cache : PageCache} (hcache : w.cache = some cache)
    (hcached : cache.isCached (L.nr b next) = true) :
    LoopInv L st₀ last w₀ b₀ w' b next complete views := by
  have hplace := h.place
  have hge := hfound.ge
  have hmono : ∀ n, w'.bitmap n = true → w.bitmap n = true := by
    intro n hn
    rw [hsaved.bitmap] at hn
    exact resetDirty_mono hn
  have hbulk₀ : w₀.bulk = false := by
    -- the cache is empty as long as this call is the one that ends the bulk stage
    by_contra hb
    obtain ⟨data, hitem⟩ := isCached_iff.mp hcached
    rw [h.cache (eq_true_of_ne_false hb) cache hcache] at hitem
    cases hitem
  have hclear : ∀ n, w.bitmap n = false → w'.bitmap n = false := by
    intro n hn
    refine eq_false_of_ne_true fun hn' => ?_
    rw [hmono n hn'] at hn
    cases hn
  have hnobulk : w'.bulk = false := hsaved.bulk.trans hbulk
  have hfields := h.saved
  refine ⟨hinv, ⟨rfl, hsaved.lastSeen.trans hfields.lastSeen, hsaved.lastOffset.trans hfields.lastOffset,
    rfl, hsaved.running.trans hfields.running, fun hstop => ?_⟩, h.lt, hnext.le,
    hsaved.bulk.trans h.bulk, fun hb => ?_, fun hb => ?_, fun n hn => h.mono n (hmono n hn), fun hb => ?_,
    fun b' i hvalid hscanned => ?_, ?_⟩
  · obtain ⟨hmem, hlog⟩ := hfields.stopped hstop
    obtain ⟨hmem', hlog'⟩ := hsaved.stopped (hfields.running.trans hstop)
    exact ⟨hmem'.trans hmem, hlog'.trans hlog⟩
  · rw [hbulk₀] at hb
    cases hb
  · rw [hbulk₀] at hb
    cases hb
  · rw [hnobulk] at hb
    cases hb
  · by_cases hnew : b' = b ∧ offset ≤ i ∧ i < next
    · obtain ⟨rfl, hlo, hhi⟩ := hnew
      exact hclear _ ((hfound.scan hbulk).2 i hlo hhi)
    refine hclear _ (h.scanned b' i hvalid ?_)
    cases complete with
    | false =>
      obtain ⟨hbehind, hbefore⟩ := hscanned
      exact ⟨hbehind, by omega⟩
    | true =>
      rcases hscanned with hbehind | hbefore
      · exact .inl hbehind
      · exact .inr (by omega)
  · cases complete with
    | false =>
      simp only [Bool.false_eq_true, if_false] at hplace ⊢
      omega
    | true =>
      have hlt := hcomplete rfl
      simp only [if_true] at hplace ⊢
      omega

/-- What a call of `ram_save_block` comes to. -/
structure BlockDone (L : Layout) (st₀ : LoadState) (last : Bool) (w w' : SaveState) (sent : Bool) :
    Prop where
  inv : ∃ views, Inv L st₀ last none w' views
  cursor : Cursor L w'
  running : w'.running = w.running
  stopped : w.running = false → w'.mem = w.mem ∧ w'.dirtyLog = w.dirtyLog
  mono : ∀ n, w'.bitmap n = true → w.bitmap n = true
  progress : sent = true → ∃ b i, L.Valid b i ∧ w.bitmap (L.nr b i) = true ∧ w'.bitmap (L.nr b i) = false
  all_clear : sent = false → ∀ b i, L.Valid b i → w'.bitmap (L.nr b i) = false

include h hcursor hseen in
lemma LoopInv.sent (hfound : Found L w₀ b₀ w b offset next) (hnext : next < L.pages b)
    (hsaved : Saved (resetDirty w (L.nr b next)) w') (hinv : ∃ views', Inv L st₀ last none
      { w' with lastSent := some b, lastSeen := some b, lastOffset := next } views') :
    BlockDone L st₀ last w₀
      { w' with lastSent := some b, lastSeen := some b, lastOffset := next } true := by
  have hplace := h.place
  have hge := hfound.ge
  have hfields := h.saved
  have hset := hfound.set hnext
  refine ⟨hinv, ⟨?_, nofun, fun hbulk b' i hvalid hafter => ?_⟩, hsaved.running.trans hfields.running,
    fun hstop => ?_, fun n hn => ?_, fun _ => ?_, nofun⟩
  · rintro b' ⟨⟩
    exact ⟨h.lt, hnext.le⟩
  · have hstart : w₀.bulk = true ∧ complete = false := by
      have hb := (h.bulk.symm.trans hsaved.bulk.symm).trans hbulk
      rwa [Bool.and_eq_true, Bool.not_eq_true'] at hb
    obtain ⟨hbulk₀, rfl⟩ := hstart
    simp only [Bool.false_eq_true, if_false] at hplace
    have hbehind : After b next b' i := hafter b rfl
    have hne : L.nr b' i ≠ L.nr b next := by
      intro heq
      obtain ⟨rfl, rfl⟩ := Layout.nr_inj hvalid ⟨h.lt, hnext⟩ heq
      unfold After at hbehind
      omega
    show w'.bitmap (L.nr b' i) = true
    rw [hsaved.bitmap, resetDirty_of_ne hne, h.bitmap hbulk₀]
    refine hcursor.ahead hbulk₀ b' i hvalid fun b'' hb'' => ?_
    have hb₀ := hseen b'' hb''
    unfold After at hbehind ⊢
    omega
  · obtain ⟨hmem, hlog⟩ := hfields.stopped hstop
    obtain ⟨hmem', hlog'⟩ := hsaved.stopped (hfields.running.trans hstop)
    exact ⟨hmem'.trans hmem, hlog'.trans hlog⟩
  · refine h.mono n (resetDirty_mono (?_ : (resetDirty w (L.nr b next)).bitmap n = true))
    rwa [← hsaved.bitmap]
  · refine ⟨b, next, ⟨h.lt, hnext⟩, h.mono _ hset, ?_⟩
    show w'.bitmap (L.nr b next) = false
    rw [hsaved.bitmap, resetDirty_self]

/-! ### The loop ends -/

def Layout.posOf (L : Layout) : Nat → Nat
  | 0 => 0
  | b + 1 => L.posOf b + L.pages b + 1

lemma Layout.posOf_mono {b b' : Nat} (h : b ≤ b') : L.posOf b ≤ L.posOf b' := by
  induction h with
  | refl => exact le_refl _
  | step _ ih =>
    rw [Layout.posOf]
    omega

lemma Layout.posOf_length (L : Layout) :
    L.posOf L.blocks.length = L.allPages.length + L.blocks.length := by
  rw [Layout.allPages]
  generalize L.blocks.length = n
  induction n with
  | zero => rfl
  | succ n ih =>
    rw [range_succ, flatMap_append, length_append, flatMap_singleton,
      length_map, length_range, Layout.posOf, ih]
    omega

/-- How far the loop has got: it increases in each round. A page whose bit has been reset counts. -/
def searched (L : Layout) (w : SaveState) (b offset : Nat) (complete : Bool) : Nat :=
  2 * ((if complete then L.posOf L.blocks.length else 0) + L.posOf b + offset) +
    if w.bitmap (L.nr b offset) then 0 else 1

include h in
lemma LoopInv.searched_lt : searched L w b offset complete < 4 * L.posOf L.blocks.length := by
  have hend : L.posOf b + L.pages b + 1 ≤ L.posOf L.blocks.length := Layout.posOf_mono h.lt
  have hle := h.le
  have hround : (if complete then L.posOf L.blocks.length else 0) ≤ L.posOf L.blocks.length := by
    split <;> omega
  have hbit : (if w.bitmap (L.nr b offset) then 0 else 1) ≤ 1 := by split <;> decide
  unfold searched
  omega

lemma searched_lt_of_lt {b' offset' : Nat} {complete' : Bool}
    (h : (if complete then L.posOf L.blocks.length else 0) + L.posOf b + offset <
      (if complete' then L.posOf L.blocks.length else 0) + L.posOf b' + offset') :
    searched L w b offset complete < searched L w' b' offset' complete' := by
  have hbit : (if w.bitmap (L.nr b offset) then 0 else 1) ≤ 1 := by split <;> decide
  unfold searched
  omega

include hfound in
lemma searched_lt_of_reset (hnext : next < L.pages b) (hreset : w'.bitmap (L.nr b next) = false) :
    searched L w b offset complete < searched L w' b next complete := by
  have hset := hfound.set hnext
  rcases hfound.ge.lt_or_eq with hlt | rfl
  · exact searched_lt_of_lt (by omega)
  unfold searched
  rw [hset, hreset]
  simp only [if_true, Bool.false_eq_true, if_false]
  omega

include h in
lemma LoopInv.not_back
    (hseen : w₀.lastSeen = some b₀) (w' : SaveState) (hlastSeen : w'.lastSeen = w.lastSeen)
    (hlastOffset : w'.lastOffset = w.lastOffset)
    (hback : ¬ (complete = true ∧ b = b₀ ∧ w₀.lastOffset ≤ next)) :
    ¬ (complete && w'.lastSeen == some b && decide (next ≥ w'.lastOffset)) = true := by
  rw [hlastSeen, hlastOffset, h.saved.lastSeen, h.saved.lastOffset, hseen]
  simp only [Bool.and_eq_true, beq_iff_eq, Option.some.injEq, decide_eq_true_eq]
  rintro ⟨⟨hcomplete, rfl⟩, hle⟩
  exact hback ⟨hcomplete, rfl, hle⟩

lemma saveRound_spec (hW : W = 4 ∨ W = 8) (hcursor : Cursor L w₀) (hseen : w₀.lastSeen = some b₀)
    (hends : endsBulk L w₀ = false) (h : LoopInv L st₀ last w₀ b₀ w b offset complete views) :
    (∃ w' sent, saveRound L W last w b offset complete = some (.done w' sent) ∧
      BlockDone L st₀ last w₀ w' sent) ∨ ∃ w' b' offset' complete' views',
      saveRound L W last w b offset complete = some (.next w' b' offset' complete') ∧
      LoopInv L st₀ last w₀ b₀ w' b' offset' complete' views' ∧
      searched L w b offset complete < searched L w' b' offset' complete' := by
  have hseen' : ∀ b, w₀.lastSeen = some b → b = b₀ := fun b hb => Option.some.inj (hb.symm.trans hseen)
  obtain ⟨next, hfound, hfind⟩ := h.find hcursor hseen'
  have hfields := h.saved
  have hle := h.le
  have hplace := h.place
  rw [saveRound, hfind]
  dsimp only
  by_cases hback : complete = true ∧ b = b₀ ∧ w₀.lastOffset ≤ next
  · -- the loop has come back
    obtain ⟨rfl, rfl, hge⟩ := hback
    obtain ⟨rfl, hclear⟩ := h.all_clear hfound hseen hends hge
    rw [if_neg (lt_irrefl _), if_pos]
    · refine .inl ⟨_, false, rfl, ⟨views, h.inv.sound, h.inv.clean, h.inv.cached, h.inv.bulk⟩,
        ⟨?_, nofun, fun hbulk => ?_⟩, hfields.running, hfields.stopped, h.mono, nofun, fun _ => hclear⟩
      · rintro b' ⟨⟩
        exact ⟨h.lt, le_refl _⟩
      · rw [h.bulk.trans (Bool.and_false _)] at hbulk
        cases hbulk
    · rw [hfields.lastSeen, hfields.lastOffset, hseen]
      simpa using hge
  by_cases hnext : next < L.pages b
  · have hinv := h.inv.reset (hfound.set hnext)
    rw [if_pos hnext, if_neg (h.not_back hseen (resetDirty w (L.nr b next)) rfl rfl hback),
      if_neg (Nat.not_le_of_lt hnext)]
    obtain ⟨w', sent, hrun, hsaved, hdone, hbulk⟩ :=
      savePage_spec hW hinv ⟨h.lt, hnext⟩ (resetDirty_self _ _)
    rw [hrun, Option.map_some]
    cases sent with
    | true => exact .inl ⟨_, true, rfl, h.sent hcursor hseen' hfound hnext hsaved (hdone _ _)⟩
    | false =>
      obtain ⟨hinv', -, cache, hcache, hcached⟩ := hdone
      refine .inr ⟨w', b, next, complete, views, rfl, ?_, ?_⟩
      · refine h.skip hfound hnext (fun hcomplete hb => ?_) hsaved hinv' (hbulk rfl) hcache hcached
        by_contra hge
        exact hback ⟨hcomplete, hb, not_lt.mp hge⟩
      · exact searched_lt_of_reset hfound hnext (by rw [hsaved.bitmap, resetDirty_self])
  · have hge : L.pages b ≤ next := not_lt.mp hnext
    rw [if_neg hnext, if_neg (h.not_back hseen w rfl rfl hback), if_pos hge]
    have hne : complete = true → b ≠ b₀ := by
      rintro rfl rfl
      refine hback ⟨rfl, rfl, ?_⟩
      have hoffset := (hcursor.seen b hseen).2
      omega
    by_cases hlt : b + 1 < L.blocks.length
    · rw [if_pos hlt]
      refine .inr ⟨w, b + 1, 0, complete, views, rfl, h.move hfound hge hne hlt, ?_⟩
      refine searched_lt_of_lt ?_
      rw [Layout.posOf]
      omega
    rw [if_neg hlt]
    have hfalse : complete = false := by
      refine eq_false_of_ne_true fun hcomplete => ?_
      have hb₀ := (hcursor.seen b₀ hseen).1
      have hbne := hne hcomplete
      rw [if_pos hcomplete] at hplace
      omega
    subst hfalse
    refine .inr ⟨_, 0, 0, true, views, rfl, h.wrap hfound hge hlt, ?_⟩
    refine searched_lt_of_lt ?_
    have hend : L.posOf b + L.pages b + 1 ≤ L.posOf L.blocks.length := Layout.posOf_mono h.lt
    simp only [Bool.false_eq_true, if_false, if_true]
    omega

lemma saveLoop_spec (hW : W = 4 ∨ W = 8) (hcursor : Cursor L w₀) (hseen : w₀.lastSeen = some b₀)
    (hends : endsBulk L w₀ = false) (fuel : Nat) : ∀ {w : SaveState} {b offset : Nat} {complete : Bool}
    {views : Nat → Nat → View}, LoopInv L st₀ last w₀ b₀ w b offset complete views →
    4 * L.posOf L.blocks.length ≤ fuel + searched L w b offset complete →
    ∃ w' sent, saveLoop L W last fuel w b offset complete = some (w', sent) ∧
      BlockDone L st₀ last w₀ w' sent := by
  induction fuel with
  | zero =>
    intro w b offset complete views h hfuel
    have hlt := h.searched_lt
    omega
  | succ fuel ih =>
    intro w b offset complete views h hfuel
    rw [saveLoop]
    rcases @saveRound_spec L W _ _ _ _ _ _ _ _ _ hW hcursor hseen hends h with
      ⟨w', sent, hround, hdone⟩ | ⟨w', b', offset', complete', views', hround, h', hlt⟩
    · rw [hround]
      exact ⟨w', sent, rfl, hdone⟩
    · rw [hround]
      exact ih h' (by omega)

lemma LoopInv.init (h : Inv L st₀ last none w views) (hlt : b₀ < L.blocks.length)
    (hle : w.lastOffset ≤ L.pages b₀) :
    LoopInv L st₀ last w b₀ w b₀ w.lastOffset false views where
  inv := h
  saved := ⟨rfl, rfl, rfl, rfl, rfl, fun _ => ⟨rfl, rfl⟩⟩
  lt := hlt
  le := hle
  bulk := (Bool.and_true _).symm
  bitmap := fun _ => rfl
  cache := h.bulk
  mono := fun _ hn => hn
  start := fun _ => .inr ⟨rfl, rfl⟩
  scanned := fun b i hvalid hscanned => by
    obtain ⟨hbehind, hbefore⟩ := hscanned
    omega
  place := .inr ⟨rfl, le_refl _⟩

lemma ramSaveBlock_first (hW : W = 4 ∨ W = 8) (h : Inv L st₀ last none w views)
    (hcursor : Cursor L w) (hfirst : w.lastSeen = none) :
    ∃ w', ramSaveBlock L W last w = some (w', true) ∧ BlockDone L st₀ last w w' true := by
  obtain ⟨hbulk, hoffset⟩ := hcursor.first hfirst
  have hseen : ∀ b, w.lastSeen = some b → b = 0 := fun b hb => absurd (hfirst.symm.trans hb) nofun
  have hloop : LoopInv L st₀ last w 0 w 0 w.lastOffset false views :=
    .init h L.nonempty (by omega)
  obtain ⟨next, hfound, hfind⟩ := hloop.find hcursor hseen
  have hnext : next < L.pages 0 := by
    by_contra hge
    have hpos := Layout.pages_pos_of_lt L.nonempty
    rcases hfound.none (not_lt.mp hge) 0 (by omega) hpos with hclear | hexempt
    · rw [hcursor.ahead hbulk 0 0 ⟨L.nonempty, hpos⟩ fun b hb =>
        absurd (hfirst.symm.trans hb) nofun] at hclear
      cases hclear
    · have hpos' := hexempt.2.1
      omega
  obtain ⟨w', sent, hrun, hsaved, hdone, hsent⟩ :=
    savePage_spec hW (h.reset (hfound.set hnext)) ⟨L.nonempty, hnext⟩ (resetDirty_self _ _)
  have htrue : sent = true := by
    by_contra hfalse
    exact absurd (hbulk.symm.trans (hsent (eq_false_of_ne_true hfalse))) (by decide)
  subst htrue
  refine ⟨_, ?_, hloop.sent hcursor hseen hfound hnext hsaved (hdone _ _)⟩
  rw [ramSaveBlock, hfirst, Option.getD_none, Layout.rounds, saveLoop, saveRound, hfind]
  dsimp only
  rw [if_pos hnext, if_neg (by simp), if_neg (Nat.not_le_of_lt hnext), hrun, Option.map_some]
  rfl

lemma ramSaveBlock_spec (hW : W = 4 ∨ W = 8) (h : Inv L st₀ last none w views)
    (hcursor : Cursor L w) (hends : endsBulk L w = false) :
    ∃ w' sent, ramSaveBlock L W last w = some (w', sent) ∧ BlockDone L st₀ last w w' sent := by
  cases hseen : w.lastSeen with
  | none =>
    obtain ⟨w', hrun, hdone⟩ := ramSaveBlock_first hW h hcursor hseen
    exact ⟨w', true, hrun, hdone⟩
  | some b =>
    obtain ⟨hlt, hle⟩ := hcursor.seen b hseen
    rw [ramSaveBlock, hseen, Option.getD_some]
    refine saveLoop_spec hW hcursor hseen hends L.rounds (.init h hlt hle) ?_
    have hlength := Layout.posOf_length L
    unfold Layout.rounds
    omega
end

/-! ## Calls of `ram_save_block` -/

def saveBlocksOk (L : Layout) (W : Nat) (last : Bool) : Nat → SaveState → Bool
  | 0, _ => true
  | n + 1, w =>
    !endsBulk L w && match ramSaveBlock L W last w with
      | some (w, true) => saveBlocksOk L W last n w
      | _ => true

def dirtyPages (L : Layout) (w : SaveState) : Nat :=
  L.allPages.countP fun p => w.bitmap (L.nr p.1 p.2)

lemma countP_lt_countP {α : Type} {p q : α → Bool} {l : List α} (h : ∀ x ∈ l, p x = true → q x = true)
    {x : α} (hx : x ∈ l) (hp : p x = false) (hq : q x = true) : l.countP p < l.countP q := by
  obtain ⟨before, after, rfl⟩ := append_of_mem hx
  have hbefore := countP_mono_left fun z (hz : z ∈ before) => h z (by simp [hz])
  have hafter := countP_mono_left fun z (hz : z ∈ after) => h z (by simp [hz])
  rw [countP_append, countP_append, countP_cons, countP_cons, hp, hq, if_neg Bool.false_ne_true, if_pos rfl]
  omega

section
variable {L : Layout} {W : Nat} {st₀ : LoadState} {last : Bool} {w w' : SaveState}
  {views : Nat → Nat → View}

lemma BlockDone.dirtyPages_lt (h : BlockDone L st₀ last w w' true) :
    dirtyPages L w' < dirtyPages L w := by
  obtain ⟨b, i, hvalid, hset, hclear⟩ := h.progress rfl
  exact countP_lt_countP (fun p _ hp => h.mono _ hp) (Layout.mem_allPages.mpr hvalid) hclear hset

structure BlocksDone (L : Layout) (st₀ : LoadState) (last : Bool) (n : Nat) (w w' : SaveState)
    (done : Bool) : Prop where
  inv : ∃ views, Inv L st₀ last none w' views
  cursor : Cursor L w'
  stopped : w.running = false → w'.mem = w.mem ∧ w'.dirtyLog = w.dirtyLog
  all_clear : done = true → ∀ b i, L.Valid b i → w'.bitmap (L.nr b i) = false
  enough : dirtyPages L w < n → done = true

lemma saveBlocks_spec (hW : W = 4 ∨ W = 8) (n : Nat) : ∀ {w : SaveState} {views : Nat → Nat → View},
    Inv L st₀ last none w views → Cursor L w → saveBlocksOk L W last n w = true →
    ∃ w' done, saveBlocks L W last n w = some (w', done) ∧ BlocksDone L st₀ last n w w' done := by
  induction n with
  | zero =>
    intro w views h hcursor _
    exact ⟨w, false, rfl, ⟨views, h⟩, hcursor, fun _ => ⟨rfl, rfl⟩, nofun, nofun⟩
  | succ n ih =>
    intro w views h hcursor hok
    rw [saveBlocksOk, Bool.and_eq_true, Bool.not_eq_true'] at hok
    obtain ⟨hends, hrest⟩ := hok
    obtain ⟨w', sent, hrun, hdone⟩ := @ramSaveBlock_spec L W _ _ _ _ hW h hcursor hends
    rw [hrun] at hrest
    rw [saveBlocks, hrun]
    cases sent with
    | false =>
      exact ⟨w', true, rfl, hdone.inv, hdone.cursor, hdone.stopped, fun _ => hdone.all_clear rfl,
        fun _ => rfl⟩
    | true =>
      obtain ⟨views', hinv'⟩ := hdone.inv
      obtain ⟨w'', done, hrun', hdone'⟩ := ih hinv' hdone.cursor hrest
      refine ⟨w'', done, hrun', hdone'.inv, hdone'.cursor, fun hstop => ?_, hdone'.all_clear,
        fun hn => hdone'.enough ?_⟩
      · obtain ⟨hmem, hlog⟩ := hdone.stopped hstop
        obtain ⟨hmem', hlog'⟩ := hdone'.stopped (hdone.running.trans hstop)
        exact ⟨hmem'.trans hmem, hlog'.trans hlog⟩
      · have hlt := hdone.dirtyPages_lt
        omega

/-! ## The other steps -/

lemma Cursor.guest (h : Cursor L w) (hstep : GuestStep L w w') : Cursor L w' where
  seen := by
    rw [hstep.lastSeen, hstep.lastOffset]
    exact h.seen
  first := by
    rw [hstep.lastSeen, hstep.bulk, hstep.lastOffset]
    exact h.first
  ahead := by
    rw [hstep.lastSeen, hstep.bulk, hstep.lastOffset, hstep.bitmap]
    exact h.ahead

lemma Inv.sync (h : Inv L st₀ false none w views) (running : Bool) :
    Inv L st₀ last none (migrationBitmapSync { w with running := running }) views where
  sound := h.sound
  clean := fun b i hvalid hbit _ hcurrent => by
    simp only [migrationBitmapSync, Bool.or_eq_false_iff] at hbit
    exact h.clean b i hvalid hbit.1 hbit.2 hcurrent
  cached := fun cache hcache pos addr data hitem => by
    obtain ⟨hpos, hdata⟩ := h.cached cache hcache pos addr data hitem
    exact ⟨hpos, fun b i hvalid hnr _ => hdata b i hvalid hnr nofun⟩
  bulk := h.bulk

lemma Cursor.sync (h : Cursor L w) (running : Bool) :
    Cursor L (migrationBitmapSync { w with running := running }) where
  seen := h.seen
  first := h.first
  ahead := fun hbulk b i hvalid hafter => by
    have hbit := h.ahead hbulk b i hvalid hafter
    simp only [migrationBitmapSync, hbit, Bool.true_or]

section
variable (h : Inv L st₀ last none w views)
include h

lemma Inv.emit_other {item : Item}
    (hitem : item = .memSize ∨ item = .eos) : Inv L st₀ last none (emit w item) views :=
  ⟨h.sound.emit_other hitem, h.clean, h.cached, h.bulk⟩

lemma Inv.flush : Inv L st₀ last none (flush w) (flushViews w.mem views) where
  sound := h.sound.flush
  clean := fun b i hvalid hbit hlog hcurrent => by
    right
    rcases h.clean b i hvalid hbit hlog hcurrent with hlive | ⟨data, hknown, hdata⟩
    · exact ⟨_, by rw [flushViews, hlive]; rfl, .refl _⟩
    · exact ⟨data, by rw [flushViews, hknown], hdata⟩
  cached := fun cache hcache pos addr data hitem => by
    obtain ⟨hpos, hdata⟩ := h.cached cache hcache pos addr data hitem
    refine ⟨hpos, fun b i hvalid hnr hlast => ?_⟩
    obtain ⟨data', hknown, hsame⟩ := hdata b i hvalid hnr hlast
    exact ⟨data', by rw [flushViews, hknown], hsame⟩
  bulk := h.bulk

lemma Inv.resize (numPages : Nat) :
    Inv L st₀ last none { w with cache := w.cache.map fun _ => cacheInit numPages } views := by
  have hempty : ∀ cache, (w.cache.map fun _ => cacheInit numPages) = some cache →
      ∀ pos, cache.items pos = none := by
    intro cache hcache pos
    obtain ⟨_, -, rfl⟩ := Option.map_eq_some_iff.mp hcache
    rfl
  refine ⟨h.sound, h.clean, fun cache hcache pos addr data hitem => ?_, fun _ => hempty⟩
  rw [hempty cache hcache pos] at hitem
  cases hitem
end

/-- The calls of `ram_save_block` of a step. -/
def saveStepOk (L : Layout) (W : Nat) (w : SaveState) : SaveOp → Bool
  | .iterate n => saveBlocksOk L W false n w
  | _ => true

variable (hW : W = 4 ∨ W = 8) (h : Inv L st₀ false none w views) (hcursor : Cursor L w)

include hW h hcursor in
lemma saveStep_spec {op : SaveOp} (hok : saveStepOk L W w op = true) :
    ∃ w', saveStep L W w op = some w' ∧ (∃ views', Inv L st₀ false none w' views') ∧ Cursor L w' := by
  cases op with
  | guest writes =>
    have hstep := guestWrites_step L writes w
    exact ⟨_, rfl, ⟨views, h.guest hstep⟩, hcursor.guest hstep⟩
  | iterate n =>
    obtain ⟨w', done, hrun, hdone⟩ := saveBlocks_spec hW n h hcursor hok
    obtain ⟨views', hinv⟩ := hdone.inv
    have hcursor' := hdone.cursor
    refine ⟨_, by rw [saveStep, hrun, Option.map_some], ⟨views', hinv.emit_other (.inr rfl)⟩,
      hcursor'.seen, hcursor'.first, hcursor'.ahead⟩
  | pending sync =>
    cases sync with
    | true => exact ⟨_, rfl, ⟨views, h.sync w.running⟩, hcursor.sync w.running⟩
    | false => exact ⟨w, rfl, ⟨views, h⟩, hcursor⟩
  | flush => exact ⟨_, rfl, ⟨_, h.flush⟩, hcursor.seen, hcursor.first, hcursor.ahead⟩
  | resize numPages =>
    exact ⟨_, rfl, ⟨views, h.resize numPages⟩, hcursor.seen, hcursor.first, hcursor.ahead⟩

/-- The calls of `ram_save_block` of a whole migration. -/
def migrationOk (L : Layout) (W : Nat) (w : SaveState) : List SaveOp → Bool
  | [] =>
    saveBlocksOk L W true (L.allPages.length + 1) (migrationBitmapSync { w with running := false })
  | op :: ops =>
    saveStepOk L W w op && match saveStep L W w op with
      | none => true
      | some w => migrationOk L W w ops

include hW h hcursor in
lemma ramSaveComplete_spec (hok : saveBlocksOk L W true (L.allPages.length + 1)
      (migrationBitmapSync { w with running := false }) = true) :
    ∃ w', ramSaveComplete L W w = some w' ∧ w'.mem = w.mem ∧ ∃ views',
      Sound L st₀ w'.stream w'.lastSent views' ∧
        ∀ b i, L.Valid b i → ∃ data, views' b i = .known data ∧ SamePage data (pageOf w.mem b i) := by
  obtain ⟨w', done, hrun, hdone⟩ :=
    saveBlocks_spec hW _ (Inv.sync h false) (hcursor.sync false) hok
  obtain ⟨views', hinv⟩ := hdone.inv
  obtain ⟨hmem, hlog⟩ := hdone.stopped rfl
  have htrue : done = true := hdone.enough (Nat.lt_succ_of_le countP_le_length)
  subst htrue
  have hflush := (hinv.emit_other (.inr rfl : Item.eos = .memSize ∨ Item.eos = .eos)).flush
  refine ⟨flush (emit w' .eos), ?_, hmem, _, hflush.sound, fun b i hvalid => ?_⟩
  · rw [ramSaveComplete]
    rw [hrun]
    rfl
  have hlog' : w'.dirtyLog (L.nr b i) = false := by rw [hlog]; rfl
  have hmem' : pageOf w.mem b i = pageOf w'.mem b i := by rw [hmem]; rfl
  rw [hmem']
  rcases hinv.clean b i hvalid (hdone.all_clear rfl b i hvalid) hlog' nofun with
    hlive | ⟨data, hknown, hdata⟩
  · exact ⟨_, by rw [flushViews, hlive]; rfl, .refl _⟩
  · exact ⟨data, by rw [flushViews, hknown], hdata⟩

lemma ramSaveSetup_spec (L : Layout) (st₀ : LoadState) (mem : Nat → Region)
    (guest : List (List PageWrite)) (cachePages : Option Nat) :
    (∃ views, Inv L st₀ false none (ramSaveSetup mem guest cachePages) views) ∧
      Cursor L (ramSaveSetup mem guest cachePages) := by
  have hempty : ∀ cache, cachePages.map cacheInit = some cache → ∀ pos, cache.items pos = none := by
    intro cache hcache pos
    obtain ⟨_, -, rfl⟩ := Option.map_eq_some_iff.mp hcache
    rfl
  have hnothing : Sound L st₀ [] none fun _ _ => .initial := fun mem =>
    ⟨st₀, rfl, nofun, fun b i _ k _ => rfl⟩
  refine ⟨⟨fun _ _ => .initial, (hnothing.emit_other (.inl rfl)).emit_other (.inr rfl),
    fun b i _ hbit => ?_, fun cache hcache pos addr data hitem => ?_, fun _ => hempty⟩,
    nofun, fun _ => ⟨rfl, rfl⟩, fun _ _ _ _ _ => rfl⟩
  · cases hbit
  · rw [hempty cache hcache pos] at hitem
    cases hitem

lemma saveRun_spec (hW : W = 4 ∨ W = 8) (ops : List SaveOp) : ∀ {w : SaveState}
    {views : Nat → Nat → View}, Inv L st₀ false none w views → Cursor L w →
    migrationOk L W w ops = true →
    ∃ w₁ w₂, saveRun L W w ops = some w₁ ∧ ramSaveComplete L W w₁ = some w₂ ∧ w₂.mem = w₁.mem ∧
      ∃ views', Sound L st₀ w₂.stream w₂.lastSent views' ∧ ∀ b i, L.Valid b i →
          ∃ data, views' b i = .known data ∧ SamePage data (pageOf w₁.mem b i) := by
  induction ops with
  | nil =>
    intro w views h hcursor hok
    obtain ⟨w₂, hrun, hrest⟩ := ramSaveComplete_spec hW h hcursor hok
    exact ⟨w, w₂, rfl, hrun, hrest⟩
  | cons op ops ih =>
    intro w views h hcursor hok
    rw [migrationOk, Bool.and_eq_true] at hok
    obtain ⟨hstepOk, hrest⟩ := hok
    obtain ⟨w', hstep, ⟨views', hinv⟩, hcursor'⟩ := saveStep_spec hW h hcursor hstepOk
    rw [hstep] at hrest
    rw [saveRun, hstep]
    exact ih hinv hcursor' hrest
end

/-- A migration none of whose calls of `ram_save_block` comes at the end of the bulk stage with nothing
left but its last page, dirty again: it ends, and the stream gives the destination the memory of the
source. -/
theorem ram_migration_equal (L : Layout) (W : Nat) (hW : W = 4 ∨ W = 8) (mem : Nat → Region)
    (guest : List (List PageWrite)) (cachePages : Option Nat) (ops : List SaveOp) (st₀ : LoadState)
    (hok : migrationOk L W (ramSaveSetup mem guest cachePages) ops = true) :
    ∃ w₁ w₂ st, saveRun L W (ramSaveSetup mem guest cachePages) ops = some w₁ ∧
      ramSaveComplete L W w₁ = some w₂ ∧ w₂.mem = w₁.mem ∧
      loadStream L.ramBlocks st₀ (w₂.stream.map (toRecord L w₂.mem)) = some st ∧
      ∀ b k, k < L.pages b * targetPageSize → st.mem b k = w₂.mem b k := by
  obtain ⟨⟨views, hinv⟩, hcursor⟩ := ramSaveSetup_spec L st₀ mem guest cachePages
  obtain ⟨w₁, w₂, hrun, hcomplete, hmem, views', hsound, hpages⟩ := saveRun_spec hW ops hinv hcursor hok
  obtain ⟨st, hload, -, hholds⟩ := hsound w₂.mem
  refine ⟨w₁, w₂, st, hrun, hcomplete, hmem, hload, fun b k hk => ?_⟩
  have hsize : 0 < targetPageSize := by decide
  have hb : b < L.blocks.length := by
    by_contra hge
    rw [Layout.pages, List.getElem?_eq_none (not_lt.mp hge), Option.map_none, Option.getD_none,
      zero_mul] at hk
    omega
  have hvalid : L.Valid b (k / targetPageSize) := ⟨hb, Nat.div_lt_of_lt_mul (Nat.mul_comm _ _ ▸ hk)⟩
  have hmod := Nat.mod_lt k hsize
  have hsplit : k / targetPageSize * targetPageSize + k % targetPageSize = k := Nat.div_add_mod' k _
  obtain ⟨data, hknown, hdata⟩ := hpages b _ hvalid
  have hpage := hholds b _ hvalid (k % targetPageSize) hmod
  rw [hknown, hsplit] at hpage
  rw [hpage, hmem]
  refine (hdata _ hmod).trans ?_
  rw [pageOf, hsplit]

def sampleLayout : Layout where
  blocks := [⟨[0x70], 0, 2⟩]
  nonempty := by decide
  pages_pos := by simp
  total_lt := by decide
  disjoint := pairwise_singleton _ _
  names := nodup_singleton _
  no_zero := by simp

def sampleSetup : SaveState := ramSaveSetup (fun _ _ => 1#8) [] none

def sampleWrite (page : Nat) : SaveOp := .guest [⟨0, page, fun _ => 2#8⟩]

/-- The guest writes the first page after the bulk stage has sent it. -/
theorem ram_migration_equal_sample :
    ∃ w₁ w₂ st, saveRun sampleLayout 8 sampleSetup [.iterate 2, .flush, sampleWrite 0] = some w₁ ∧
      ramSaveComplete sampleLayout 8 w₁ = some w₂ ∧ w₂.mem = w₁.mem ∧
      loadStream sampleLayout.ramBlocks sampleState
        (w₂.stream.map (toRecord sampleLayout w₂.mem)) = some st ∧
      ∀ b k, k < sampleLayout.pages b * targetPageSize → st.mem b k = w₂.mem b k :=
  ram_migration_equal sampleLayout 8 (.inr rfl) (fun _ _ => 1#8) [] none
    [.iterate 2, .flush, sampleWrite 0] sampleState (by decide +kernel)

/-- The guest writes the last page after the bulk stage has sent it. `ram_save_complete` resets its bit
and does not send it. -/
theorem ram_migration_drops_page :
    (((saveRun sampleLayout 8 sampleSetup [.iterate 2, .flush, sampleWrite 1]).bind
      (ramSaveComplete sampleLayout 8)).bind fun w =>
        (loadStream sampleLayout.ramBlocks sampleState
          (w.stream.map (toRecord sampleLayout w.mem))).map fun st =>
            (st.mem 0 targetPageSize, w.mem 0 targetPageSize)) = some (1#8, 2#8) := by
  decide +kernel

end QemuVmi.Migration
