import QemuVmi.Migration.RamSave
import QemuVmi.Migration.XbzrleRoundTrip

/-!
# The stream of RAM on the destination

What `ram_load` makes of a stream that the source wrote. For each page the destination has what it had
before, data that is in the stream, or what the memory of the source is when the stream is flushed
(`View`). An item of the stream changes the view of one page.

Results:
1. `nr_inj`: a bit belongs to one page.
2. `Sound.emit`: the destination follows the views, item by item.
3. `Sound.flush`: writing the stream out fixes the pages that were not copied.
-/

namespace QemuVmi.Migration

open ByteRegion List

variable {b i : Nat}

namespace Layout

variable {L : Layout}

lemma pages_of_get (h : b < L.blocks.length) : L.pages b = L.blocks[b].pages := by
  rw [pages, List.getElem?_eq_getElem h, Option.map_some, Option.getD_some]

lemma nr_of_get (h : b < L.blocks.length) (i : Nat) : L.nr b i = L.blocks[b].base + i := by
  rw [nr, List.getElem?_eq_getElem h, Option.map_some, Option.getD_some]

lemma pages_pos_of_lt (h : b < L.blocks.length) : 0 < L.pages b := by
  rw [pages_of_get h]
  exact L.pages_pos _ (getElem_mem h)

lemma nr_inj {b' i' : Nat} (h : L.Valid b i) (h' : L.Valid b' i') (hnr : L.nr b i = L.nr b' i') :
    b = b' ∧ i = i' := by
  obtain ⟨hb, hi⟩ := h
  obtain ⟨hb', hi'⟩ := h'
  rw [pages_of_get hb] at hi
  rw [pages_of_get hb'] at hi'
  rw [nr_of_get hb, nr_of_get hb'] at hnr
  have hdisjoint := pairwise_iff_getElem.mp L.disjoint
  rcases lt_trichotomy b b' with hlt | heq | hgt
  · have h := hdisjoint b b' hb hb' hlt
    omega
  · subst heq
    exact ⟨rfl, by omega⟩
  · have h := hdisjoint b' b hb' hb hgt
    omega

lemma mem_allPages : (b, i) ∈ L.allPages ↔ L.Valid b i := by simp [allPages, Valid]

lemma end_le_total (h : L.Valid b i) : i * targetPageSize + targetPageSize ≤ L.bytesTotal := by
  obtain ⟨hb, hi⟩ := h
  rw [pages_of_get hb] at hi
  have hle : L.blocks[b].pages * targetPageSize ≤ L.bytesTotal :=
    le_sum_of_mem (mem_map.mpr ⟨_, getElem_mem hb, rfl⟩)
  calc i * targetPageSize + targetPageSize = (i + 1) * targetPageSize := (Nat.succ_mul i _).symm
    _ ≤ L.blocks[b].pages * targetPageSize := Nat.mul_le_mul_right _ hi
    _ ≤ L.bytesTotal := hle

lemma findBlock_name (hb : b < L.blocks.length) :
    findBlock L.ramBlocks L.blocks[b].idstr = some b := by
  have hname : L.blocks[b].idstr.takeWhile (· ≠ 0) = L.blocks[b].idstr := by
    rw [takeWhile_eq_self_iff]
    intro c hc
    exact decide_eq_true (L.no_zero _ (getElem_mem hb) c hc)
  have hnames := pairwise_iff_getElem.mp L.names
  rw [findBlock, hname, findIdx?_eq_some_iff_getElem]
  refine ⟨by rwa [ramBlocks, length_map], ?_, ?_⟩
  · simp [ramBlocks]
  · intro j hj
    have h := hnames j b (by rw [length_map]; omega) (by rwa [length_map]) hj
    simpa [ramBlocks] using h

end Layout

section
variable {L : Layout} {mem : Nat → Region} {st : LoadState} {b i : Nat}

structure PageRecord (L : Layout) (cont : Bool) (b i flag : Nat) (r : Record) : Prop where
  addr : r.addr = UInt64.ofNat (i * targetPageSize + (if cont then ramSaveFlagContinue else 0) + flag)
  id : r.id = (L.blocks[b]?.map SaveBlock.idstr).getD []
  error : r.error = 0

variable {cont : Bool} {flag : Nat} {r : Record}

section
variable (h : PageRecord L cont b i flag r)
include h

variable (hvalid : L.Valid b i)
include hvalid

lemma PageRecord.toNat (hflag : flag < 128) :
    r.addr.toNat = i * targetPageSize + ((if cont then ramSaveFlagContinue else 0) + flag) := by
  have hend := L.end_le_total hvalid
  have htotal : L.bytesTotal < 2 ^ 64 := L.total_lt
  have hcont : (if cont then ramSaveFlagContinue else 0) ≤ 32 := by cases cont <;> decide
  have hsize : targetPageSize = 4096 := rfl
  rw [h.addr, add_assoc, UInt64.toNat_ofNat']
  exact Nat.mod_eq_of_lt (by omega)

lemma PageRecord.flags
    (hflag : flag < 128) : r.flags = (if cont then ramSaveFlagContinue else 0) + flag := by
  have hcont : (if cont then ramSaveFlagContinue else 0) ≤ 32 := by cases cont <;> decide
  have hsize : targetPageSize = 4096 := rfl
  rw [Record.flags, h.toNat hvalid hflag, mul_comm, Nat.mul_add_mod, Nat.mod_eq_of_lt (by omega)]

lemma PageRecord.offset (hflag : flag < 128) : r.offset = i * targetPageSize := by
  have hflags := h.flags hvalid hflag
  rw [Record.flags] at hflags
  rw [Record.offset, hflags, h.toNat hvalid hflag, Nat.add_sub_cancel]

lemma PageRecord.host
    (hflag : flag = ramSaveFlagCompress ∨ flag = ramSaveFlagPage ∨ flag = ramSaveFlagXbzrle)
    (hcont : cont = true → st.block = some b) :
    hostFromStreamOffset L.ramBlocks st r = ({ st with block := some b }, some b) := by
  have hflags : r.flags = (if cont then ramSaveFlagContinue else 0) + flag := by
    refine h.flags hvalid ?_
    rcases hflag with rfl | rfl | rfl <;> decide
  unfold hostFromStreamOffset
  cases cont with
  | true =>
    have hhas : r.has ramSaveFlagContinue = true := by
      rw [Record.has, hflags]
      rcases hflag with rfl | rfl | rfl <;> rfl
    rw [if_pos hhas, hcont rfl]
    have heta : st = { st with block := some b } := by rw [← hcont rfl]
    rw [← heta]
  | false =>
    have hhas : ¬ r.has ramSaveFlagContinue = true := by
      rw [Record.has, hflags]
      rcases hflag with rfl | rfl | rfl <;> decide
    rw [if_neg hhas, h.id, List.getElem?_eq_getElem hvalid.1, Option.map_some, Option.getD_some,
      Layout.findBlock_name hvalid.1]
end

def Holds (st : LoadState) (b i : Nat) (data : Region) : Prop :=
  ∀ k, k < targetPageSize → st.mem b (i * targetPageSize + k) = data k

variable (h : PageRecord L cont b i flag r) (hvalid : L.Valid b i)
  (hflag : flag = ramSaveFlagCompress ∨ flag = ramSaveFlagPage ∨ flag = ramSaveFlagXbzrle)

include h hvalid hflag in
lemma PageRecord.has : r.has ramSaveFlagMemSize = false ∧ r.has ramSaveFlagEos = false ∧
      r.has ramSaveFlagCompress = decide (flag = ramSaveFlagCompress) ∧
      r.has ramSaveFlagPage = decide (flag = ramSaveFlagPage) ∧
      r.has ramSaveFlagXbzrle = decide (flag = ramSaveFlagXbzrle) := by
  have hflags : r.flags = (if cont then ramSaveFlagContinue else 0) + flag := by
    refine h.flags hvalid ?_
    rcases hflag with rfl | rfl | rfl <;> decide
  simp only [Record.has, hflags]
  cases cont <;> rcases hflag with rfl | rfl | rfl <;> decide

include h hvalid hflag in
lemma PageRecord.next {region : Region} (hcont : cont = true → st.block = some b)
    (hload : loadPage L.ramBlocks st r = .next (LoadState.write { st with block := some b } b region)) :
    ∃ st', loadRecord L.ramBlocks st r = .next st' ∧ st'.block = some b ∧
      (∀ k, st'.mem b k = region k) ∧
      ∀ b' i' data, (b', i') ≠ (b, i) → Holds st b' i' data → Holds st' b' i' data := by
  obtain ⟨hmemSize, heos, -⟩ := h.has hvalid hflag
  have hnext : loadRecord L.ramBlocks st r =
      .next (LoadState.write { st with block := some b } b region) := by
    rw [loadRecord, if_neg (by simp [hmemSize]), hload]
    dsimp only
    rw [if_neg (by rw [h.error]; decide), if_neg (by simp [heos])]
  have hchanges := loadRecord_changes L.ramBlocks st r _ (by rw [hnext]; rfl)
  have hoffset : r.offset = i * targetPageSize := by
    refine h.offset hvalid ?_
    rcases hflag with rfl | rfl | rfl <;> decide
  refine ⟨_, hnext, rfl, congrFun (if_pos rfl), fun b' i' data hne hholds k hk => ?_⟩
  rw [← hholds k hk]
  by_contra hdiffer
  obtain ⟨offset, htarget, hlo, hhi⟩ := hchanges b' _ hdiffer
  unfold target at htarget
  split at htarget
  · rw [h.host hvalid hflag hcont, hoffset] at htarget
    cases htarget
    have hi : i' = i := by
      have hsize : targetPageSize = 4096 := rfl
      rw [hsize] at hlo hhi hk
      omega
    exact hne (by rw [hi])
  · cases htarget

def Loads (L : Layout) (st : LoadState) (b i : Nat) (data : Region) (r : Record) : Prop :=
  ∃ st', loadRecord L.ramBlocks st r = .next st' ∧ st'.block = some b ∧ Holds st' b i data ∧
    ∀ b' i' data', (b', i') ≠ (b, i) → Holds st b' i' data' → Holds st' b' i' data'

lemma ramHandleCompressed_zero {region : Region} {offset k : Nat} (hk : k < targetPageSize) :
    ramHandleCompressed region offset 0#8 (offset + k) = 0#8 := by
  unfold ramHandleCompressed
  split
  · exact copy_of_lt hk
  next hzero =>
    simp only [isZeroRange, ne_eq, not_true_eq_false, false_or, Bool.not_eq_true', Bool.not_eq_false,
      all_eq_true, mem_range, decide_eq_true_eq] at hzero
    exact hzero k hk

lemma loads_zero (hvalid : L.Valid b i) (hcont : cont = true → st.block = some b) :
    Loads L st b i (fun _ => 0#8) (toRecord L mem (.zero cont b i)) := by
  have hrecord : PageRecord L cont b i ramSaveFlagCompress (toRecord L mem (.zero cont b i)) :=
    ⟨rfl, rfl, rfl⟩
  have hflag : ramSaveFlagCompress = ramSaveFlagCompress ∨ ramSaveFlagCompress = ramSaveFlagPage ∨
      ramSaveFlagCompress = ramSaveFlagXbzrle := .inl rfl
  obtain ⟨-, -, hcompress, -⟩ := hrecord.has hvalid hflag
  obtain ⟨st', hnext, hblock, hmem, hother⟩ := hrecord.next hvalid hflag hcont (by
    rw [loadPage, if_pos (by rw [hcompress]; rfl), withHost, hrecord.host hvalid hflag hcont])
  refine ⟨st', hnext, hblock, fun k hk => ?_, hother⟩
  rw [hmem, hrecord.offset hvalid (by decide)]
  exact ramHandleCompressed_zero hk

lemma loads_page (h : PageRecord L cont b i ramSaveFlagPage r) (hlen : r.pageLen = targetPageSize)
    (hvalid : L.Valid b i) (hcont : cont = true → st.block = some b) : Loads L st b i r.page r := by
  have hflag : ramSaveFlagPage = ramSaveFlagCompress ∨ ramSaveFlagPage = ramSaveFlagPage ∨
      ramSaveFlagPage = ramSaveFlagXbzrle := .inr (.inl rfl)
  obtain ⟨-, -, hcompress, hpage, -⟩ := h.has hvalid hflag
  obtain ⟨st', hnext, hblock, hmem, hother⟩ := h.next hvalid hflag hcont (by
    rw [loadPage, if_neg (by rw [hcompress]; decide), if_pos (by rw [hpage]; rfl), withHost,
      h.host hvalid hflag hcont])
  refine ⟨st', hnext, hblock, fun k hk => ?_, hother⟩
  rw [hmem, h.offset hvalid (by decide), hlen, min_self]
  exact copy_of_lt hk

/-! ### Encoded pages -/

lemma decodeLoop_congr {src : Region} {slen dlen : Nat} (fuel : Nat) : ∀ {i d : Nat}
    {dst dst' page : Region} {ret : Int}, decodeLoop src slen dlen fuel i d dst = some (ret, page) →
    ∃ page', decodeLoop src slen dlen fuel i d dst' = some (ret, page') ∧
      ∀ k, dst k = dst' k → page k = page' k := by
  induction fuel with
  | zero =>
    intro i d dst dst' page ret h
    cases h
  | succ fuel ih =>
    intro i d dst dst' page ret h
    have hsame : ∀ code : Int, some (code, dst) = some (ret, page) →
        ∃ page', some (code, dst') = some (ret, page') ∧ ∀ k, dst k = dst' k → page k = page' k := by
      rintro code ⟨⟩
      exact ⟨dst', rfl, fun _ hk => hk⟩
    rw [decodeLoop] at h ⊢
    split
    next hlt =>
      rw [if_pos hlt] at h
      split
      next hshort =>
        rw [if_pos hshort] at h
        exact hsame _ h
      rename_i hshort
      rw [if_neg hshort] at h
      cases hz : uleb128DecodeSmall src i with
      | none =>
        rw [hz] at h
        exact hsame _ h
      | some z =>
        rw [hz] at h
        dsimp only at h ⊢
        split_ifs at h ⊢ with h₁ h₂ h₃
        · exact hsame _ h
        · exact hsame _ h
        · exact hsame _ h
        cases hnz : uleb128DecodeSmall src (i + z.1) with
        | none =>
          rw [hnz] at h
          exact hsame _ h
        | some nz =>
          rw [hnz] at h
          dsimp only at h ⊢
          split_ifs at h ⊢ with h₄ h₅
          · exact hsame _ h
          · exact hsame _ h
          obtain ⟨page', hrun, hpage⟩ := ih h
          refine ⟨page', hrun, fun k hk => hpage k ?_⟩
          unfold copy
          rw [hk]
    next hge =>
      rw [if_neg hge] at h
      exact hsame _ h

lemma decodeLoop_le {src : Region} {slen dlen : Nat} (fuel : Nat) : ∀ {i d : Nat}
    {dst page : Region} {ret : Int}, d ≤ dlen →
    decodeLoop src slen dlen fuel i d dst = some (ret, page) → ret ≤ dlen := by
  induction fuel with
  | zero =>
    intro i d dst page ret _ h
    cases h
  | succ fuel ih =>
    intro i d dst page ret hd h
    have herror : some ((-1 : Int), dst) = some (ret, page) → ret ≤ dlen := by
      rintro ⟨⟩
      omega
    rw [decodeLoop] at h
    split at h
    · split at h
      · exact herror h
      split at h
      · exact herror h
      split at h
      · exact herror h
      split at h
      · exact herror h
      split at h
      · exact herror h
      split at h
      · exact herror h
      split at h
      · exact herror h
      split at h
      · exact herror h
      · exact ih (by omega) h
    · cases h
      omega

lemma loads_xbzrle {len : Nat} {encoded data page : Region} {ret : Int} (hvalid : L.Valid b i)
    (hcont : cont = true → st.block = some b) (hholds : Holds st b i data)
    (hlen : len ≤ targetPageSize)
    (hdecode : xbzrleDecodeBuffer encoded len data targetPageSize = some (ret, page))
    (hret : 0 ≤ ret) : Loads L st b i page (toRecord L mem (.xbzrle cont b i len encoded)) := by
  have hsize : targetPageSize = 4096 := rfl
  have hrecord : PageRecord L cont b i ramSaveFlagXbzrle
      (toRecord L mem (.xbzrle cont b i len encoded)) := ⟨rfl, rfl, rfl⟩
  have hflag : ramSaveFlagXbzrle = ramSaveFlagCompress ∨ ramSaveFlagXbzrle = ramSaveFlagPage ∨
      ramSaveFlagXbzrle = ramSaveFlagXbzrle := .inr (.inr rfl)
  obtain ⟨-, -, hcompress, hpage, hxbzrle⟩ := hrecord.has hvalid hflag
  have hle : ret ≤ targetPageSize := decodeLoop_le _ (Nat.zero_le _) hdecode
  obtain ⟨page', hdecode', hsame⟩ := @decodeLoop_congr _ _ _ _ _ _ data
    (fun k => st.mem b (i * targetPageSize + k)) _ _ hdecode
  have hxh : (UInt16.ofNat len).toNat = len := by
    rw [UInt16.toNat_ofNat']
    exact Nat.mod_eq_of_lt (by omega)
  have hload : loadXbzrle (toRecord L mem (.xbzrle cont b i len encoded)) (st.mem b)
      (i * targetPageSize) = some (true, placeFrom (st.mem b) (i * targetPageSize) page') := by
    rw [loadXbzrle, if_neg (fun h => h rfl)]
    simp only [toRecord, hxh]
    rw [if_neg (by omega), xbzrleDecodeBuffer, hdecode']
    dsimp only
    rw [if_neg (by omega), if_neg (by omega)]
  obtain ⟨st', hnext, hblock, hmem, hother⟩ := hrecord.next hvalid hflag hcont (by
    rw [loadPage, if_neg (by rw [hcompress]; decide), if_neg (by rw [hpage]; decide),
      if_pos (by rw [hxbzrle]; rfl), withHost, hrecord.host hvalid hflag hcont]
    dsimp only
    rw [hrecord.offset hvalid (by decide), hload])
  refine ⟨st', hnext, hblock, fun k hk => ?_, hother⟩
  rw [hmem, placeFrom, if_neg (by omega), Nat.add_sub_cancel_left, hsame k (hholds k hk).symm]

/-! ### Other records -/

lemma memSizeOk_blocks (rest : List SaveBlock) (hrest : ∀ block ∈ rest, block ∈ L.blocks)
    (hsum : (rest.map fun block => block.pages * targetPageSize).sum < 2 ^ 64) :
    memSizeOk L.ramBlocks
      (rest.map fun block => (block.idstr, UInt64.ofNat (block.pages * targetPageSize)))
      (UInt64.ofNat (rest.map fun block => block.pages * targetPageSize).sum) = true := by
  induction rest with
  | nil => rfl
  | cons block rest ih =>
    obtain ⟨b, hb, rfl⟩ := getElem_of_mem (hrest _ mem_cons_self)
    rw [map_cons, sum_cons] at hsum
    have hget : L.ramBlocks[b]? = some ⟨L.blocks[b].idstr, L.blocks[b].pages * targetPageSize⟩ := by
      rw [Layout.ramBlocks, List.getElem?_map, List.getElem?_eq_getElem hb, Option.map_some]
    have hlen : (UInt64.ofNat (L.blocks[b].pages * targetPageSize)).toNat =
        L.blocks[b].pages * targetPageSize := by
      rw [UInt64.toNat_ofNat']
      exact Nat.mod_eq_of_lt (by omega)
    have hrec := ih (fun block hblock => hrest block (mem_cons_of_mem _ hblock)) (by omega)
    rw [map_cons, map_cons, sum_cons, memSizeOk]
    split
    · rfl
    rw [Layout.findBlock_name hb]
    dsimp only
    rw [hget]
    dsimp only
    rw [if_neg (by rw [hlen]; exact fun h => h rfl), UInt64.ofNat_add,
      UInt64.add_comm, UInt64.add_sub_cancel]
    exact hrec

lemma bytesTotal_mod (L : Layout) : L.bytesTotal % targetPageSize = 0 := by
  rw [Layout.bytesTotal]
  induction L.blocks with
  | nil => rfl
  | cons block rest ih =>
    rw [map_cons, sum_cons, Nat.add_mod, Nat.mul_mod_left, ih]
    rfl

lemma loadRecord_memSize : loadRecord L.ramBlocks st (toRecord L mem .memSize) = .next st := by
  have hmod := bytesTotal_mod L
  have htotal : L.bytesTotal < 2 ^ 64 := L.total_lt
  have hsize : targetPageSize = 4096 := rfl
  have hflag : ramSaveFlagMemSize = 4 := rfl
  rw [hsize] at hmod
  have haddr : (toRecord L mem .memSize).addr.toNat = L.bytesTotal + 4 := by
    simp only [toRecord]
    rw [UInt64.toNat_ofNat']
    exact Nat.mod_eq_of_lt (by omega)
  have hflags : (toRecord L mem .memSize).flags = 4 := by
    rw [Record.flags, haddr, hsize]
    omega
  have hoffset : (toRecord L mem .memSize).offset = L.bytesTotal := by
    rw [Record.offset, haddr, hsize]
    omega
  have hok := @memSizeOk_blocks L L.blocks (fun _ h => h) htotal
  rw [loadRecord, hoffset, if_neg, loadPage]
  · simp only [Record.has, hflags]
    rfl
  · rintro ⟨-, hbad⟩
    rw [Bool.not_eq_true'] at hbad
    exact absurd (hok.symm.trans hbad) (by decide)

lemma loadRecord_eos : loadRecord L.ramBlocks st (toRecord L mem .eos) = .ret 0 st := by
  have hflags : (toRecord L mem .eos).flags = 16 := rfl
  simp only [loadRecord, loadPage, Record.has, hflags]
  rfl
end

lemma loadStream_append (blocks : List RAMBlock) (st : LoadState) (records records' : List Record) :
    loadStream blocks st (records ++ records') =
      (loadStream blocks st records).bind fun st => loadStream blocks st records' := by
  induction records generalizing st with
  | nil => rfl
  | cons r records ih =>
    rw [cons_append, loadStream, loadStream]
    cases loadRecord blocks st r with
    | next st' => exact ih st'
    | ret code st' =>
      dsimp only
      split
      · exact ih st'
      · rfl
    | abort => rfl

inductive View
  | initial
  | known (data : Region)
  /-- The memory of the source, when the stream is flushed. -/
  | live

def View.data (view : View) (initial mem : Nat → Region) (b i : Nat) : Region :=
  match view with
  | .initial => pageOf initial b i
  | .known data => data
  | .live => pageOf mem b i

def setView (views : Nat → Nat → View) (b i : Nat) (view : View) : Nat → Nat → View := fun b' i' =>
  if (b', i') = (b, i) then view else views b' i'

/-- Whatever the memory is when the stream is flushed, it is loaded without an error, the last block
that it names is `lastSent`, and the views are right. -/
def Sound (L : Layout) (st₀ : LoadState) (stream : List Item) (lastSent : Option Nat)
    (views : Nat → Nat → View) : Prop :=
  ∀ mem, ∃ st, loadStream L.ramBlocks st₀ (stream.map (toRecord L mem)) = some st ∧
    (∀ b, lastSent = some b → st.block = some b) ∧
    ∀ b i, L.Valid b i → Holds st b i ((views b i).data st₀.mem mem b i)

inductive Fits (lastSent : Option Nat) (views : Nat → Nat → View) (b i : Nat) : Item → View → Prop
  | zero {cont : Bool} : (cont = true → lastSent = some b) →
      Fits lastSent views b i (.zero cont b i) (.known fun _ => 0#8)
  | page {cont : Bool} {data : Region} : (cont = true → lastSent = some b) →
      Fits lastSent views b i (.page cont b i data) (.known data)
  | live {cont : Bool} : (cont = true → lastSent = some b) →
      Fits lastSent views b i (.live cont b i) .live
  | xbzrle {cont : Bool} {len : Nat} {encoded data page : Region} {ret : Int} :
      (cont = true → lastSent = some b) → views b i = .known data → len ≤ targetPageSize →
      xbzrleDecodeBuffer encoded len data targetPageSize = some (ret, page) → 0 ≤ ret →
      Fits lastSent views b i (.xbzrle cont b i len encoded) (.known page)

section
variable {L : Layout} {st₀ : LoadState} {stream : List Item} {lastSent : Option Nat}
  {views : Nat → Nat → View} {b i : Nat} {item : Item} {view : View}

lemma Fits.loads (h : Fits lastSent views b i item view) (hvalid : L.Valid b i) {st : LoadState}
    {initial mem : Nat → Region} (hblock : ∀ b, lastSent = some b → st.block = some b)
    (hholds : Holds st b i ((views b i).data initial mem b i)) :
    Loads L st b i (view.data initial mem b i) (toRecord L mem item) := by
  cases h with
  | zero hcont => exact loads_zero hvalid fun hc => hblock b (hcont hc)
  | page hcont | live hcont =>
    exact loads_page ⟨rfl, rfl, rfl⟩ rfl hvalid fun hc => hblock b (hcont hc)
  | xbzrle hcont hview hlen hdecode hret =>
    rw [hview] at hholds
    exact loads_xbzrle hvalid (fun hc => hblock b (hcont hc)) hholds hlen hdecode hret

lemma Sound.emit (h : Sound L st₀ stream lastSent views) (hvalid : L.Valid b i)
    (hfits : Fits lastSent views b i item view) :
    Sound L st₀ (stream ++ [item]) (some b) (setView views b i view) := by
  intro mem
  obtain ⟨st, hload, hblock, hholds⟩ := h mem
  obtain ⟨st', hnext, hblock', hpage, hother⟩ := hfits.loads hvalid hblock (hholds b i hvalid)
  refine ⟨st', ?_, ?_, fun b' i' hvalid' => ?_⟩
  · rw [map_append, loadStream_append, hload, Option.bind_some, map_singleton, loadStream, hnext]
    rfl
  · rintro b' ⟨⟩
    exact hblock'
  unfold setView
  split
  next heq =>
    cases heq
    exact hpage
  next hne => exact hother b' i' _ hne (hholds b' i' hvalid')

lemma Sound.emit_other (h : Sound L st₀ stream lastSent views)
    (hitem : item = .memSize ∨ item = .eos) : Sound L st₀ (stream ++ [item]) lastSent views := by
  intro mem
  obtain ⟨st, hload, hrest⟩ := h mem
  refine ⟨st, ?_, hrest⟩
  rw [map_append, loadStream_append, hload, Option.bind_some, map_singleton, loadStream]
  rcases hitem with rfl | rfl
  · rw [loadRecord_memSize]
    rfl
  · rw [loadRecord_eos]
    rfl

def flushViews (mem : Nat → Region) (views : Nat → Nat → View) : Nat → Nat → View := fun b i =>
  match views b i with
  | .live => .known (pageOf mem b i)
  | view => view

lemma Sound.flush {w : SaveState} (h : Sound L st₀ w.stream w.lastSent views) :
    Sound L st₀ (flush w).stream w.lastSent (flushViews w.mem views) := by
  intro mem
  obtain ⟨st, hload, hblock, hholds⟩ := h w.mem
  refine ⟨st, ?_, hblock, fun b i hvalid => ?_⟩
  · have hrecords : (QemuVmi.Migration.flush w).stream.map (toRecord L mem) =
        w.stream.map (toRecord L w.mem) := by
      rw [QemuVmi.Migration.flush, map_map]
      refine map_congr_left fun item _ => ?_
      cases item <;> rfl
    rw [hrecords, hload]
  have hpage := hholds b i hvalid
  unfold flushViews
  cases hview : views b i with
  | initial | known data | live =>
    rwa [hview] at hpage
end

end QemuVmi.Migration
