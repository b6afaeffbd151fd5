import QemuVmi.Migration.Xbzrle

/-!
# Loading RAM

`ram_load` with `host_from_stream_offset` and `load_xbzrle` of `arch_init.c`. The stream is read record by
record; a record of the model has a field for everything that the code may read for it, and a field
that is not read does not matter. The memory of a block is a function of the offset from its start, so
that an offset at or behind the length is memory outside of the block.

The offset of a page record is added to the address of the block as it is.

Results:
1. `loadRecord_changes`: a record changes nothing but the page it is for.
2. `ram_load_stays_inside`: a stream whose page records lie in their blocks changes nothing outside of
   them.
-/

namespace QemuVmi.Migration

open ByteRegion

def targetPageSize : Nat := 4096

def ramSaveFlagCompress : Nat := 0x02

def ramSaveFlagMemSize : Nat := 0x04

def ramSaveFlagPage : Nat := 0x08

def ramSaveFlagEos : Nat := 0x10

def ramSaveFlagContinue : Nat := 0x20

def ramSaveFlagXbzrle : Nat := 0x40

def encodingFlagXbzrle : UInt8 := 1

def einval : Int := 22

def eio : Int := 5

structure RAMBlock where
  idstr : List UInt8
  length : Nat
deriving DecidableEq, Repr

/-- What the stream has for one round of the loop of `ram_load`. -/
structure Record where
  addr : UInt64
  /-- The names and lengths after `RAM_SAVE_FLAG_MEM_SIZE`. -/
  entries : List (List UInt8 × UInt64)
  /-- The name of the block, without `RAM_SAVE_FLAG_CONTINUE`. -/
  id : List UInt8
  ch : BitVec 8
  /-- The bytes of a page, as many as the stream still has. -/
  page : Region
  pageLen : Nat
  xhFlags : UInt8
  xhLen : UInt16
  encoded : Region
  /-- `qemu_file_get_error` at the end of the round. -/
  error : Int

def Record.flags (r : Record) : Nat := r.addr.toNat % targetPageSize

def Record.offset (r : Record) : Nat := r.addr.toNat - r.addr.toNat % targetPageSize

def Record.has (r : Record) (flag : Nat) : Bool := r.flags &&& flag != 0

/-- The memory of the blocks, and `block` of `host_from_stream_offset`. -/
structure LoadState where
  mem : Nat → Region
  block : Option Nat

section
variable (blocks : List RAMBlock)

/-- `strncmp(id, block->idstr, sizeof(id)) == 0` -/
def findBlock (id : List UInt8) : Option Nat :=
  blocks.findIdx? fun block => block.idstr = id.takeWhile (· ≠ 0)

/-- The loop of `RAM_SAVE_FLAG_MEM_SIZE`: all blocks are known and have the same length. A stream that
ends gives an empty name, which no block has. -/
def memSizeOk (blocks : List RAMBlock) : List (List UInt8 × UInt64) → UInt64 → Bool
  | [], total => total = 0
  | (id, length) :: entries, total =>
    if total = 0 then true
    else
      match findBlock blocks id with
      | none => false
      | some b =>
        match blocks[b]? with
        | none => false
        | some block =>
          if block.length ≠ length.toNat then false else memSizeOk blocks entries (total - length)

section
variable (st : LoadState) (r : Record)

/-- `host_from_stream_offset`: the block whose memory the offset is added to. -/
def hostFromStreamOffset :
    LoadState × Option Nat :=
  if r.has ramSaveFlagContinue then (st, st.block)
  else
    let block := findBlock blocks r.id
    ({ st with block := block }, block)

def LoadState.write (b : Nat) (region : Region) : LoadState :=
  { st with mem := fun b' => if b' = b then region else st.mem b' }

section
variable (region : Region)

def isZeroRange (offset size : Nat) : Bool :=
  (List.range size).all fun k => region (offset + k) = 0#8

def ramHandleCompressed (offset : Nat) (ch : BitVec 8) : Region :=
  if ch ≠ 0#8 ∨ !isZeroRange region offset targetPageSize then
    copy region offset targetPageSize fun _ => ch
  else region

def placeFrom (offset : Nat) (page : Region) : Region := fun a =>
  if a < offset then region a else page (a - offset)

/-- `load_xbzrle`: whether it succeeds, and the memory; `none` for a failed assertion. -/
def loadXbzrle (offset : Nat) : Option (Bool × Region) :=
  if r.xhFlags ≠ encodingFlagXbzrle then some (false, region)
  else if r.xhLen.toNat > targetPageSize then some (false, region)
  else
    match xbzrleDecodeBuffer r.encoded r.xhLen.toNat (fun k => region (offset + k)) targetPageSize with
    | none => none
    | some (ret, page) =>
      if ret = -1 then some (false, placeFrom region offset page)
      else if ret > targetPageSize then none
      else some (true, placeFrom region offset page)
end

/-- What a round comes to. -/
inductive LoadStep
  | next (st : LoadState)
  | ret (code : Int) (st : LoadState)
  | abort

/-- `host = host_from_stream_offset(f, addr, flags); if (!host) return -EINVAL;` -/
def withHost
    (f : LoadState → Nat → LoadStep) : LoadStep :=
  match hostFromStreamOffset blocks st r with
  | (st, none) => .ret (-einval) st
  | (st, some b) => f st b

/-- The part of the loop for a page. -/
def loadPage : LoadStep :=
  if r.has ramSaveFlagCompress then
    withHost blocks st r fun st b =>
      .next (st.write b (ramHandleCompressed (st.mem b) r.offset r.ch))
  else if r.has ramSaveFlagPage then
    withHost blocks st r fun st b =>
      .next (st.write b (copy (st.mem b) r.offset (min r.pageLen targetPageSize) r.page))
  else if r.has ramSaveFlagXbzrle then
    withHost blocks st r fun st b =>
      match loadXbzrle r (st.mem b) r.offset with
      | none => .abort
      | some (true, region) => .next (st.write b region)
      | some (false, region) => .ret (-einval) (st.write b region)
  else .next st

/-- One round of the loop of `ram_load`. -/
def loadRecord : LoadStep :=
  if r.has ramSaveFlagMemSize ∧ !memSizeOk blocks r.entries (UInt64.ofNat r.offset) then
    .ret (-einval) st
  else
    match loadPage blocks st r with
    | .next st =>
      if r.error ≠ 0 then .ret r.error st
      else if r.has ramSaveFlagEos then .ret 0 st
      else .next st
    | step => step

/-- `ram_load` with version 4: what it returns, `none` for a failed assertion, and the state. A stream
that ends reads as zeros and sets an error. -/
def ramLoad (blocks : List RAMBlock) : LoadState → List Record → Option Int × LoadState
  | st, [] => (some (-eio), st)
  | st, r :: records =>
    match loadRecord blocks st r with
    | .next st => ramLoad blocks st records
    | .ret code st => (some code, st)
    | .abort => (none, st)

def target : Option (Nat × Nat) :=
  if r.has ramSaveFlagCompress || r.has ramSaveFlagPage || r.has ramSaveFlagXbzrle then
    (hostFromStreamOffset blocks st r).2.map fun b => (b, r.offset)
  else none
end

end

/-- The state after a round, if there is one. -/
def LoadStep.state : LoadStep → Option LoadState
  | .next st => some st
  | .ret _ st => some st
  | .abort => none

lemma hostFromStreamOffset_mem (blocks : List RAMBlock) (st : LoadState) (r : Record) :
    (hostFromStreamOffset blocks st r).1.mem = st.mem := by
  unfold hostFromStreamOffset
  split <;> rfl

lemma ramHandleCompressed_of_ge {region : Region} {offset : Nat} {ch : BitVec 8} {k : Nat}
    (h : k < offset ∨ offset + targetPageSize ≤ k) :
    ramHandleCompressed region offset ch k = region k := by
  unfold ramHandleCompressed
  split
  · exact copy_of_ge h
  · rfl

lemma decodeLoop_of_ge {src : Region} {slen dlen : Nat} (fuel : Nat) : ∀ {i d : Nat}
    {dst page : Region} {ret : Int}, decodeLoop src slen dlen fuel i d dst = some (ret, page) →
    ∀ k, dlen ≤ k → page k = dst k := by
  induction fuel with
  | zero =>
    intro i d dst page ret h
    cases h
  | succ fuel ih =>
    intro i d dst page ret h k hk
    rw [decodeLoop] at h
    split at h
    · split at h
      · cases h
        rfl
      split at h
      · cases h
        rfl
      rename_i z _
      split at h
      · cases h
        rfl
      split at h
      · cases h
        rfl
      split at h
      · cases h
        rfl
      split at h
      · cases h
        rfl
      rename_i nz _
      split at h
      · cases h
        rfl
      split at h
      · cases h
        rfl
      next hfits =>
        rw [ih h k hk]
        exact copy_of_ge (.inr (by omega))
    · cases h
      rfl

variable {r : Record} {st : LoadState}

lemma loadXbzrle_of_ge {region region' : Region} {offset : Nat} {ok : Bool}
    (h : loadXbzrle r region offset = some (ok, region')) {k : Nat}
    (hk : k < offset ∨ offset + targetPageSize ≤ k) : region' k = region k := by
  unfold loadXbzrle at h
  split at h
  · cases h
    rfl
  split at h
  · cases h
    rfl
  split at h
  · cases h
  rename_i ret page hdecode
  have hplace : placeFrom region offset page k = region k := by
    unfold placeFrom
    split
    · rfl
    next hge =>
      have hpage := decodeLoop_of_ge _ hdecode (k - offset) (by omega)
      rw [hpage, Nat.add_sub_cancel' (Nat.not_lt.mp hge)]
  split at h
  · cases h
    exact hplace
  split at h
  · cases h
  · cases h
    exact hplace

def ChangesOnly (st st' : LoadState) (target : Option (Nat × Nat)) : Prop :=
  ∀ b k, st'.mem b k ≠ st.mem b k →
    ∃ offset, target = some (b, offset) ∧ offset ≤ k ∧ k < offset + targetPageSize

lemma ChangesOnly.of_eq {st' : LoadState} (h : st'.mem = st.mem) (target : Option (Nat × Nat)) :
    ChangesOnly st st' target := by
  intro b k hne
  exact absurd (by rw [h]) hne

lemma withHost_changes {blocks : List RAMBlock} {f : LoadState → Nat → LoadStep}
    (hflag : (r.has ramSaveFlagCompress || r.has ramSaveFlagPage || r.has ramSaveFlagXbzrle) = true)
    (hf : ∀ st₁ b st', (f st₁ b).state = some st' → ∃ region, st' = st₁.write b region ∧
      ∀ k, k < r.offset ∨ r.offset + targetPageSize ≤ k → region k = st₁.mem b k) :
    ∀ st', (withHost blocks st r f).state = some st' → ChangesOnly st st' (target blocks st r) := by
  intro st' hst'
  have hmem := hostFromStreamOffset_mem blocks st r
  have htarget : target blocks st r =
      (hostFromStreamOffset blocks st r).2.map fun b => (b, r.offset) := by
    rw [target, if_pos hflag]
  rw [htarget]
  unfold withHost at hst'
  split at hst'
  next st₁ hhost =>
    cases hst'
    rw [hhost] at hmem
    exact .of_eq hmem _
  next st₁ b hhost =>
    replace hmem : st₁.mem = st.mem := by
      rwa [hhost] at hmem
    obtain ⟨region, rfl, hregion⟩ := hf st₁ b st' hst'
    intro b' k hne
    simp only [LoadState.write, hmem] at hne
    split at hne
    next heq =>
      subst heq
      have hin : r.offset ≤ k ∧ k < r.offset + targetPageSize := by
        by_contra hout
        exact hne (by rw [hregion k (by omega), hmem])
      exact ⟨r.offset, by rw [hhost]; rfl, hin⟩
    · exact absurd rfl hne

lemma loadPage_changes (blocks : List RAMBlock) (st : LoadState) (r : Record) :
    ∀ st', (loadPage blocks st r).state = some st' → ChangesOnly st st' (target blocks st r) := by
  intro st'
  unfold loadPage
  split
  next hflag =>
    refine withHost_changes (by rw [hflag, Bool.true_or, Bool.true_or]) ?_ st'
    rintro st₁ b _ ⟨⟩
    exact ⟨_, rfl, fun k hk => ramHandleCompressed_of_ge hk⟩
  split
  next hflag =>
    refine withHost_changes (by rw [hflag, Bool.or_true, Bool.true_or]) ?_ st'
    rintro st₁ b _ ⟨⟩
    exact ⟨_, rfl, fun k hk => copy_of_ge (by omega)⟩
  split
  next hflag =>
    refine withHost_changes (by rw [hflag, Bool.or_true]) ?_ st'
    intro st₁ b st₂ hst₂
    split at hst₂
    · cases hst₂
    next region hload =>
      cases hst₂
      exact ⟨region, rfl, fun k hk => loadXbzrle_of_ge hload hk⟩
    next region hload =>
      cases hst₂
      exact ⟨region, rfl, fun k hk => loadXbzrle_of_ge hload hk⟩
  · rintro ⟨⟩
    exact .of_eq rfl _

lemma loadRecord_changes (blocks : List RAMBlock) (st : LoadState) (r : Record) :
    ∀ st', (loadRecord blocks st r).state = some st' → ChangesOnly st st' (target blocks st r) := by
  intro st' hst'
  have hpage := loadPage_changes blocks st r
  unfold loadRecord at hst'
  split at hst'
  · cases hst'
    exact .of_eq rfl _
  split at hst'
  next st₁ hnext =>
    rw [hnext] at hpage
    refine hpage st' ?_
    split at hst'
    · exact hst'
    split at hst' <;> exact hst'
  · exact hpage st' hst'

section
variable (blocks : List RAMBlock)

def InBlock (b offset : Nat) : Prop :=
  ∃ block, blocks[b]? = some block ∧ offset + targetPageSize ≤ block.length

def ByteInBlock (b k : Nat) : Prop :=
  ∃ block, blocks[b]? = some block ∧ k < block.length

/-- The record is applied to a page that lies in the block, and to nothing else; or an error is
returned and nothing outside of the blocks has changed. -/
def RecordOk (st : LoadState) (r : Record) : Prop :=
  (∀ st', (loadRecord blocks st r).state = some st' → ∀ b k, st'.mem b k ≠ st.mem b k →
      ∃ offset, target blocks st r = some (b, offset) ∧ offset ≤ k ∧ k < offset + targetPageSize ∧
        ByteInBlock blocks b k) ∧
    ∀ b offset, target blocks st r = some (b, offset) →
      InBlock blocks b offset ∨ ∃ code st', code ≠ 0 ∧ loadRecord blocks st r = .ret code st'
end

/-- So it is for every record that `ram_load` gets to. -/
def Respected (blocks : List RAMBlock) : LoadState → List Record → Prop
  | _, [] => True
  | st, r :: records =>
    RecordOk blocks st r ∧ ∀ st', loadRecord blocks st r = .next st' → Respected blocks st' records

/-- The page records that `ram_load` gets to lie in their blocks. -/
def InBounds (blocks : List RAMBlock) : LoadState → List Record → Prop
  | _, [] => True
  | st, r :: records =>
    (∀ b offset, target blocks st r = some (b, offset) → InBlock blocks b offset) ∧
      ∀ st', loadRecord blocks st r = .next st' → InBounds blocks st' records

lemma recordOk_of_inBlock {blocks : List RAMBlock}
    (h : ∀ b offset, target blocks st r = some (b, offset) → InBlock blocks b offset) :
    RecordOk blocks st r := by
  refine ⟨fun st' hst' b k hne => ?_, fun b offset htarget => .inl (h b offset htarget)⟩
  obtain ⟨offset, htarget, hlo, hhi⟩ := loadRecord_changes blocks st r st' hst' b k hne
  obtain ⟨block, hblock, hin⟩ := h b offset htarget
  exact ⟨offset, htarget, hlo, hhi, block, hblock, by omega⟩

/-- A stream whose page records lie in their blocks is applied inside of the blocks. -/
theorem ram_load_stays_inside (blocks : List RAMBlock) (records : List Record) :
    ∀ st : LoadState, InBounds blocks st records → Respected blocks st records ∧
        ∀ b k, (ramLoad blocks st records).2.mem b k ≠ st.mem b k → ByteInBlock blocks b k := by
  induction records with
  | nil =>
    intro st _
    exact ⟨trivial, fun b k hne => absurd rfl hne⟩
  | cons r records ih =>
    intro st h
    have hok := recordOk_of_inBlock h.1
    refine ⟨⟨hok, fun st' hnext => (ih st' (h.2 st' hnext)).1⟩, fun b k hne => ?_⟩
    rw [ramLoad] at hne
    cases hstep : loadRecord blocks st r with
    | next st' =>
      rw [hstep] at hne
      by_cases hmem : st'.mem b k = st.mem b k
      · rw [← hmem] at hne
        exact (ih st' (h.2 st' hstep)).2 b k hne
      · obtain ⟨_, _, _, _, hin⟩ := hok.1 st' (by rw [hstep]; rfl) b k hmem
        exact hin
    | ret code st' =>
      rw [hstep] at hne
      obtain ⟨_, _, _, _, hin⟩ := hok.1 st' (by rw [hstep]; rfl) b k hne
      exact hin
    | abort =>
      rw [hstep] at hne
      exact absurd rfl hne

def sampleBlocks : List RAMBlock := [⟨[0x70], 2 * targetPageSize⟩]

/-- A page of ones at an offset in the block named `p`. -/
def samplePage (offset : UInt64) : Record :=
  ⟨offset ||| 0x02, [], [0x70], 1#8, fun _ => 0#8, 0, 0, 0, fun _ => 0#8, 0⟩

def sampleEnd : Record := ⟨0x10, [], [], 0#8, fun _ => 0#8, 0, 0, 0, fun _ => 0#8, 0⟩

def sampleState : LoadState := ⟨fun _ _ => 0#8, none⟩

theorem ram_load_stays_inside_last_page :
    Respected sampleBlocks sampleState [samplePage 0x1000, sampleEnd] ∧
      ∀ b k, (ramLoad sampleBlocks sampleState [samplePage 0x1000, sampleEnd]).2.mem b k ≠ 0#8 →
        ByteInBlock sampleBlocks b k := by
  have hpage : target sampleBlocks sampleState (samplePage 0x1000) = some (0, 0x1000) := by decide
  have hend : ∀ st, target sampleBlocks st sampleEnd = none := fun st => rfl
  refine ram_load_stays_inside sampleBlocks [samplePage 0x1000, sampleEnd] sampleState
    ⟨fun b offset htarget => ?_, fun st' _ => ⟨fun b offset htarget => ?_, fun _ _ => trivial⟩⟩
  · rw [hpage] at htarget
    cases htarget
    exact ⟨_, rfl, by decide⟩
  · rw [hend] at htarget
    cases htarget

/-- A page record at the end of the block is applied to the memory behind it, and `ram_load` returns
zero. -/
theorem ram_load_leaves_block :
    (ramLoad sampleBlocks sampleState [samplePage 0x2000, sampleEnd]).1 = some 0 ∧
      (ramLoad sampleBlocks sampleState [samplePage 0x2000, sampleEnd]).2.mem 0 0x2000 = 1#8 ∧
      ¬ ByteInBlock sampleBlocks 0 0x2000 := by
  refine ⟨by decide +kernel, by decide +kernel, ?_⟩
  rintro ⟨block, hblock, hlt⟩
  cases hblock
  exact absurd hlt (by decide)

end QemuVmi.Migration
