import QemuVmi.Exec.RamBlocks
import QemuVmi.Lib.SkipTree

/-!
# The physical page map

The radix tree of `exec.c` from page numbers to sections: `phys_page_set`,
`phys_page_compact` and `phys_page_find`.

In the source, an entry is a number of a section or of a node, and the nodes are an array. A
node is pointed at by one entry only, so the entries are trees here (`Entry`): the entry with
`PHYS_MAP_NODE_NIL` is `empty`, an entry with `skip = 0` is a `leaf`. Of the array, the number of
nodes and the number of allocated ones are left, which are what its assertions are about. `none`
stands for a failed assertion, and for an entry whose number is taken for one of the other kind.

Results:
1. `physPageCompact_shrinks`: compaction only changes what is found for pages where nothing was.
-/

namespace QemuVmi.Exec

open SkipTree Function Nat List

/-- `P_L2_SIZE`, for `P_L2_BITS` of 9. -/
def pL2Size : Nat := 512

/-- `P_L2_LEVELS`: the page numbers have 52 bits. -/
def pL2Levels : Nat := 6

def physMapNodeNil : Nat := 2 ^ 26 - 1

def physSectionUnassigned : Nat := 0

/-- `PhysPageEntry`, with the node that it points at. -/
abbrev Entry := Tree Nat 512

/-- A `Node`. -/
abbrev Node := Fin 512 → Entry

/-- `*index` and `*nb` of `phys_page_set_level`, and `nodes_nb` of the map. -/
structure SetState where
  index : Nat
  nb : Nat
  nodesNb : Nat

/-- The new node of `phys_page_set_level`, from `phys_map_node_alloc`. -/
def physMapNodeAlloc (nodesNbAlloc level : Nat) (st : SetState) : Option (Node × SetState) :=
  if st.nodesNb = physMapNodeNil ∨ st.nodesNb = nodesNbAlloc then none
  else
    some (fun _ => if level = 0 then .leaf physSectionUnassigned else .empty,
      { st with nodesNb := st.nodesNb + 1 })

/-- One step of the loop of `phys_page_set_level`. `lower` is the call for the level below. -/
def setEntry (lower : Entry → SetState → Option (Entry × SetState)) (leaf step : Nat) (lp : Entry)
    (st : SetState) : Option (Entry × SetState) :=
  if st.index % step = 0 ∧ st.nb ≥ step then
    some (.leaf leaf, { st with index := st.index + step, nb := st.nb - step })
  else lower lp st

/-- The loop of `phys_page_set_level` over the entries from `slot` on, of which there are
`slots`. -/
def setSlots (lower : Entry → SetState → Option (Entry × SetState)) (leaf step : Nat) :
    Nat → Nat → Node → SetState → Option (Node × SetState)
  | 0, _, p, st => some (p, st)
  | slots + 1, slot, p, st =>
      if st.nb = 0 then some (p, st)
      else
        (setEntry lower leaf step (p (Fin.ofNat 512 slot)) st).bind fun (lp, st) =>
          setSlots lower leaf step slots (slot + 1) (update p (Fin.ofNat 512 slot) lp) st

/-- One level of `phys_page_set_level`. -/
def setLevel (nodesNbAlloc leaf level : Nat) (lower : Entry → SetState → Option (Entry × SetState))
    (lp : Entry) (st : SetState) : Option (Entry × SetState) := do
  let (skip, p, st) ← match lp with
    | .empty => (physMapNodeAlloc nodesNbAlloc level st).map fun (p, st) => (1, p, st)
    | .node skip p => some (skip, p, st)
    | .leaf _ => none
  let slot := st.index / pL2Size ^ level % pL2Size
  let (p, st) ← setSlots lower leaf (pL2Size ^ level) (pL2Size - slot) slot p st
  return (.node skip p, st)

/-- `phys_page_set_level`. A page is not split. -/
def physPageSetLevel (nodesNbAlloc leaf : Nat) : Nat → Entry → SetState → Option (Entry × SetState)
  | 0 => setLevel nodesNbAlloc leaf 0 fun _ _ => none
  | level + 1 => setLevel nodesNbAlloc leaf (level + 1) (physPageSetLevel nodesNbAlloc leaf level)

/-- `phys_map` and the counters of the nodes. -/
structure PhysMap where
  root : Entry
  nodesNb : Nat
  nodesNbAlloc : Nat

def physMapNodeReserve (nodes : Nat) (m : PhysMap) : PhysMap :=
  if m.nodesNb + nodes > m.nodesNbAlloc then
    { m with nodesNbAlloc := max (max (m.nodesNbAlloc * 2) 16) (m.nodesNb + nodes) }
  else m

def physPageSet (index nb leaf : Nat) (m : PhysMap) : Option PhysMap :=
  let m := physMapNodeReserve (3 * pL2Levels) m
  (physPageSetLevel m.nodesNbAlloc leaf (pL2Levels - 1) m.root ⟨index, nb, m.nodesNb⟩).map
    fun (root, st) => { m with root := root, nodesNb := st.nodesNb }

/-- The loop of `phys_page_compact`: `valid_ptr` and `valid`. -/
def validChild (p : Node) : Option (Fin 512) × Nat :=
  (finRange 512).foldl (fun acc i =>
    match p i with
    | .empty => acc
    | _ => (some i, acc.2 + 1)) (none, 0)

/-- The field `skip` of an entry. -/
def Entry.skip : Entry → Nat
  | .empty => 1
  | .leaf _ => 0
  | .node skip _ => skip

/-- `phys_page_compact` behind its loop, for `valid_ptr` and `valid`. -/
def compactNode (skip : Nat) (p : Node) : Option (Fin 512) × Nat → Entry
  | (some i, 1) =>
      if skip + Entry.skip (p i) ≥ 2 ^ 3 then .node skip p
      else absorb skip (p i)
  | _ => .node skip p

/-- `phys_page_compact`. It is called for nodes only. -/
def physPageCompact : Entry → Entry
  | .empty => .empty
  | .leaf n => .leaf n
  | .node skip p => compactNode skip (fun i => physPageCompact (p i)) (validChild p)

def physPageCompactAll (m : PhysMap) : PhysMap :=
  if Entry.skip m.root ≠ 0 then { m with root := physPageCompact m.root } else m

/-- The loop of `phys_page_find`: it ends at a section, or at `PHYS_MAP_NODE_NIL`. -/
def physPageWalk (lp : Entry) (index : Nat) : Option (Option Nat) := lp.find pL2Levels index

/-- Before the compaction, no node skips a level. Above the last level, only assigned pages are
leaves. -/
def Built : Nat → Entry → Prop
  | l, .empty => 1 ≤ l
  | l, .leaf n => 1 ≤ l → n ≠ physSectionUnassigned
  | l, .node skip p => skip = 1 ∧ 1 ≤ l ∧ ∀ i, Built (l - 1) (p i)

def sectionAt (lp : Entry) (l index : Nat) : Nat :=
  ((lp.find l index).getD none).getD physSectionUnassigned

variable {l : Nat} {lp : Entry}

lemma Built.levelled (h : Built l lp) : Levelled l lp := by
  induction lp generalizing l with
  | empty => exact h
  | leaf n => trivial
  | node skip p ih =>
    obtain ⟨rfl, hl, hp⟩ := h
    exact ⟨le_rfl, hl, fun i => ih i (hp i)⟩

lemma sectionAt_leaf (n l index : Nat) : sectionAt (.leaf n) l index = n := rfl

lemma sectionAt_empty (hl : 1 ≤ l) (index : Nat) :
    sectionAt .empty l index = physSectionUnassigned := by
  rw [sectionAt, Tree.find, if_pos hl]
  rfl

lemma sectionAt_node (l : Nat) (p : Node) (index : Nat) :
    sectionAt (.node 1 p) (l + 1) index = sectionAt (p (digit 512 l index)) l index := by
  rw [sectionAt, find_node (succ_le_succ (zero_le l))]
  rfl

/-- If the pages start behind the start of a block of `size` pages. -/
def leftEdge (st : SetState) (size : Nat) : Nat := if st.index % size = 0 then 0 else 1

def rightEdge (st : SetState) (last : Nat) : Nat := if st.index + st.nb < last then 1 else 0

/-- What setting pages does to an entry for the block `b` of `512 ^ l` pages, if it has `cost`
nodes to allocate. -/
structure SetsPages (leaf l b cost : Nat) (lp : Entry) (st : SetState) (lp' : Entry) (st' : SetState) :
    Prop where
  built : Built l lp'
  index : st'.index = min (st.index + st.nb) ((b + 1) * 512 ^ l)
  nb : st'.index + st'.nb = st.index + st.nb
  nodes : st'.nodesNb ≤ st.nodesNb + cost
  find : ∀ page, page / 512 ^ l = b → sectionAt lp' l page =
    if st.index ≤ page ∧ page < st'.index then leaf else sectionAt lp l page

/-- The pages to set of the block `b` are not assigned. -/
def Unassigned (l b : Nat) (lp : Entry) (st : SetState) : Prop :=
  ∀ page, st.index ≤ page → page < st.index + st.nb → page / 512 ^ l = b →
    sectionAt lp l page = physSectionUnassigned

/-- A call for one level. It allocates a node for the entry, and for each edge of the pages at most
one on each level below. -/
def SetsLevel (cap leaf level : Nat) (set : Entry → SetState → Option (Entry × SetState)) : Prop :=
  ∀ (lp : Entry) (st : SetState) (b : Nat), Built (level + 1) lp → st.nb ≠ 0 →
    st.index / 512 ^ (level + 1) = b → Unassigned (level + 1) b lp st →
    st.nodesNb + 1 + (leftEdge st (512 ^ (level + 1)) + rightEdge st ((b + 1) * 512 ^ (level + 1))) *
      level ≤ cap →
    ∃ lp' st', set lp st = some (lp', st') ∧ SetsPages leaf (level + 1) b
      (1 + (leftEdge st (512 ^ (level + 1)) + rightEdge st ((b + 1) * 512 ^ (level + 1))) * level)
      lp st lp' st'

variable {b page index : Nat}

section
variable {cap leaf level : Nat}

lemma div_eq_block {q : Nat} (hq : 0 < q) :
    index / q = b ↔ b * q ≤ index ∧ index < b * q + q := by
  rw [Nat.div_eq_iff hq]
  omega

variable {lower : Entry → SetState → Option (Entry × SetState)} {slot : Nat}
  (hlower : ∀ m, level = m + 1 → SetsLevel cap leaf m lower) (hleaf : leaf ≠ physSectionUnassigned)

include hlower hleaf in
/-- One entry of a node: the whole entry becomes a leaf, or a part of it is set on the level
below. -/
lemma setEntry_spec {st : SetState}
    (hlp : Built level lp) (hnb : st.nb ≠ 0) (hb : st.index / 512 ^ level = b)
    (hfree : Unassigned level b lp st)
    (hcap : st.nodesNb + (leftEdge st (512 ^ level) + rightEdge st ((b + 1) * 512 ^ level)) * level ≤ cap) :
    ∃ lp' st', setEntry lower leaf (512 ^ level) lp st = some (lp', st') ∧ SetsPages leaf level b
      ((leftEdge st (512 ^ level) + rightEdge st ((b + 1) * 512 ^ level)) * level) lp st lp' st' := by
  have hq : 0 < 512 ^ level := Nat.pow_pos (by decide)
  obtain ⟨hstart, hend⟩ := (div_eq_block hq).mp hb
  rw [setEntry]
  split
  · next hwhole =>
    obtain ⟨hmod, hnb'⟩ := hwhole
    have hindex : st.index = b * 512 ^ level := by
      rw [← hb, mul_comm, Nat.mul_div_cancel' (dvd_of_mod_eq_zero hmod)]
    refine ⟨_, _, rfl, fun _ => hleaf, ?_, ?_, le_add_right _ _, fun page hpage => ?_⟩
    · dsimp only
      rw [add_mul, one_mul]
      omega
    · dsimp only
      omega
    · obtain ⟨hle, hlt⟩ := (div_eq_block hq).mp hpage
      rw [sectionAt_leaf, if_pos (by dsimp only; omega)]
  · next hpart =>
    cases level with
    | zero =>
      rw [pow_zero, mod_one] at hpart
      omega
    | succ m =>
      have hedge : 1 ≤ leftEdge st (512 ^ (m + 1)) + rightEdge st ((b + 1) * 512 ^ (m + 1)) := by
        rw [leftEdge, rightEdge, add_mul, one_mul]
        split
        · next hmod =>
          have hindex : st.index = b * 512 ^ (m + 1) := by
            rw [← hb, mul_comm, Nat.mul_div_cancel' (dvd_of_mod_eq_zero hmod)]
          rw [if_pos (by omega)]
        · omega
      have hcost : 1 + (leftEdge st (512 ^ (m + 1)) + rightEdge st ((b + 1) * 512 ^ (m + 1))) * m ≤
          (leftEdge st (512 ^ (m + 1)) + rightEdge st ((b + 1) * 512 ^ (m + 1))) * (m + 1) := by
        rw [mul_add, mul_one]
        omega
      obtain ⟨lp', st', hrun, hset⟩ := hlower m rfl lp st b hlp hnb hb hfree (by omega)
      exact ⟨lp', st', hrun, hset.built, hset.index, hset.nb, by have := hset.nodes; omega, hset.find⟩

lemma digit_eq (hslot : slot < 512) (h : page / 512 ^ level = b * 512 + slot) :
    digit 512 level page = Fin.ofNat 512 slot ∧ page / 512 ^ (level + 1) = b := by
  refine ⟨?_, ?_⟩
  · rw [digit, h]
    apply Fin.ext
    change (b * 512 + slot) % 512 = slot % 512
    omega
  · rw [pow_succ, ← Nat.div_div_eq_div_mul, h]
    omega

lemma digit_ne (hslot : slot < 512) (hb : page / 512 ^ (level + 1) = b)
    (h : page / 512 ^ level ≠ b * 512 + slot) : digit 512 level page ≠ Fin.ofNat 512 slot := by
  rw [pow_succ, ← Nat.div_div_eq_div_mul] at hb
  intro heq
  have := congrArg Fin.val heq
  change page / 512 ^ level % 512 = slot % 512 at this
  omega

lemma setSlots_of_nb_eq_zero {st : SetState} (h : st.nb = 0) (step slots slot : Nat) (p : Node) :
    setSlots lower leaf step slots slot p st = some (p, st) := by
  cases slots with
  | zero => rfl
  | succ slots => rw [setSlots, if_pos h]

/-- What setting pages does to a node for the block `b` of `512 ^ (level + 1)` pages. -/
structure SetsNode (leaf level b cost : Nat) (p : Node) (st : SetState) (p' : Node) (st' : SetState) :
    Prop where
  built : ∀ i, Built level (p' i)
  index : st'.index = min (st.index + st.nb) ((b + 1) * 512 ^ (level + 1))
  nb : st'.index + st'.nb = st.index + st.nb
  nodes : st'.nodesNb ≤ st.nodesNb + cost
  find : ∀ page, page / 512 ^ (level + 1) = b → sectionAt (p' (digit 512 level page)) level page =
    if st.index ≤ page ∧ page < st'.index then leaf
    else sectionAt (p (digit 512 level page)) level page

include hlower hleaf in
/-- The loop over the entries of a node, by induction on those that are left. -/
lemma setSlots_spec {slots b : Nat} (hslots : slots + slot = 512) {p : Node}
    {st : SetState} (hp : ∀ i, Built level (p i))
    (hin : st.nb ≠ 0 → st.index / 512 ^ level = b * 512 + slot)
    (hle : st.index ≤ (b + 1) * 512 ^ (level + 1))
    (hfree : ∀ page, st.index ≤ page → page < st.index + st.nb → page / 512 ^ (level + 1) = b →
      sectionAt (p (digit 512 level page)) level page = physSectionUnassigned)
    (hcap : st.nodesNb + (leftEdge st (512 ^ level) + rightEdge st ((b + 1) * 512 ^ (level + 1))) *
      level ≤ cap) : ∃ p' st', setSlots lower leaf (512 ^ level) slots slot p st = some (p', st') ∧
      SetsNode leaf level b
        ((leftEdge st (512 ^ level) + rightEdge st ((b + 1) * 512 ^ (level + 1))) * level)
        p st p' st' := by
  have hq : 0 < 512 ^ level := Nat.pow_pos (by decide)
  have hlast : (b + 1) * 512 ^ (level + 1) = (b * 512 + 512) * 512 ^ level := by ring
  induction slots generalizing slot p st with
  | zero =>
    have hdone : st.index = min (st.index + st.nb) ((b + 1) * 512 ^ (level + 1)) := by
      by_cases hnb : st.nb = 0
      · omega
      · have hstart := ((div_eq_block hq).mp (hin hnb)).1
        rw [show slot = 512 by omega, ← hlast] at hstart
        omega
    refine ⟨p, st, rfl, hp, hdone, rfl, le_add_right _ _, fun page _ => ?_⟩
    rw [if_neg (by omega)]
  | succ slots ih =>
    by_cases hnb : st.nb = 0
    · refine ⟨p, st, setSlots_of_nb_eq_zero hnb _ _ _ _, hp, by omega, rfl, le_add_right _ _,
        fun page _ => ?_⟩
      rw [if_neg (by omega)]
    have hslot : slot < 512 := by omega
    have hindex := hin hnb
    have hblock := (digit_eq hslot hindex).2
    -- the end of the entry is not behind the end of the node
    have hend : (b * 512 + slot + 1) * 512 ^ level ≤ (b + 1) * 512 ^ (level + 1) := by
      rw [hlast]
      exact mul_le_mul_right _ (by omega)
    have hedge : rightEdge st ((b * 512 + slot + 1) * 512 ^ level) ≤
        rightEdge st ((b + 1) * 512 ^ (level + 1)) := by
      rw [rightEdge, rightEdge]
      split <;> split <;> omega
    obtain ⟨lp', st₁, hentry, hset⟩ := setEntry_spec hlower hleaf (hp (Fin.ofNat 512 slot)) hnb hindex
      (fun page hstart hlt hpage => by
        obtain ⟨hdigit, hb⟩ := digit_eq hslot hpage
        rw [← hdigit]
        exact hfree page hstart hlt hb)
      (le_trans (Nat.add_le_add_left (Nat.mul_le_mul_right _ (Nat.add_le_add_left hedge _)) _) hcap)
    have hstep : setSlots lower leaf (512 ^ level) (slots + 1) slot p st =
        setSlots lower leaf (512 ^ level) slots (slot + 1)
          (update p (Fin.ofNat 512 slot) lp') st₁ := by
      rw [setSlots, if_neg hnb, hentry]
      rfl
    have hindex₁ := hset.index
    have hnb₁ := hset.nb
    have hnodes₁ := hset.nodes
    have hp₁ : ∀ i, Built level (update p (Fin.ofNat 512 slot) lp' i) := by
      intro i
      by_cases hi : i = Fin.ofNat 512 slot
      · rw [hi, update_self]
        exact hset.built
      · rw [update_of_ne hi]
        exact hp i
    -- the pages that were set now are those of the entry
    have hfind₁ : ∀ page, page / 512 ^ (level + 1) = b →
        sectionAt (update p (Fin.ofNat 512 slot) lp' (digit 512 level page)) level page =
          if st.index ≤ page ∧ page < st₁.index then leaf
          else sectionAt (p (digit 512 level page)) level page := by
      intro page hpage
      by_cases hhere : page / 512 ^ level = b * 512 + slot
      · rw [(digit_eq hslot hhere).1, update_self]
        exact hset.find page hhere
      rw [update_of_ne (digit_ne hslot hpage hhere), if_neg]
      intro hset'
      refine hhere ((div_eq_block hq).mpr ?_)
      have := ((div_eq_block hq).mp hindex).1
      rw [add_mul _ 1, one_mul] at hindex₁
      omega
    rw [hstep]
    by_cases hdone : st₁.nb = 0
    · refine ⟨_, st₁, setSlots_of_nb_eq_zero hdone _ _ _ _, hp₁, by omega, hnb₁, ?_, hfind₁⟩
      exact hnodes₁.trans
        (Nat.add_le_add_left (Nat.mul_le_mul_right _ (Nat.add_le_add_left hedge _)) _)
    have hnext : st₁.index = (b * 512 + slot + 1) * 512 ^ level := by omega
    have hgrow : st.index ≤ st₁.index := by
      have := ((div_eq_block hq).mp hindex).2
      rw [hnext, add_mul _ 1, one_mul]
      omega
    have hleft : leftEdge st₁ (512 ^ level) = 0 := by rw [leftEdge, hnext, mul_mod_left, if_pos rfl]
    have hright : rightEdge st₁ ((b + 1) * 512 ^ (level + 1)) =
        rightEdge st ((b + 1) * 512 ^ (level + 1)) := by
      rw [rightEdge, rightEdge, hnb₁]
    have hinner : rightEdge st ((b * 512 + slot + 1) * 512 ^ level) = 0 := by
      rw [rightEdge, if_neg (by omega)]
    rw [hinner, add_zero] at hnodes₁
    rw [add_mul] at hcap
    obtain ⟨p', st', hrun, hrest⟩ := @ih (slot + 1) (by omega) _ st₁ hp₁
      (fun _ => by rw [hnext, Nat.mul_div_cancel _ hq, add_assoc]) (by omega)
      (fun page hstart hlt hpage => by
        rw [hfind₁ page hpage, if_neg (by omega)]
        exact hfree page (by omega) (by omega) hpage)
      (by rw [hleft, hright, zero_add]; omega)
    have hindex' := hrest.index
    have hnb' := hrest.nb
    have hnodes' := hrest.nodes
    rw [hleft, hright, zero_add] at hnodes'
    refine ⟨p', st', hrun, hrest.built, by omega, by omega, ?_, fun page hpage => ?_⟩
    · rw [add_mul]
      omega
    rw [hrest.find page hpage, hfind₁ page hpage]
    by_cases hlater : st₁.index ≤ page ∧ page < st'.index
    · rw [if_pos hlater, if_pos (by omega)]
    rw [if_neg hlater]
    by_cases hnow : st.index ≤ page ∧ page < st₁.index
    · rw [if_pos hnow, if_pos (by omega)]
    · rw [if_neg hnow, if_neg (by omega)]

lemma leftEdge_mono (st : SetState) (level : Nat) :
    leftEdge st (512 ^ level) ≤ leftEdge st (512 ^ (level + 1)) := by
  rw [leftEdge, leftEdge]
  split
  · exact zero_le _
  next hmod =>
  rw [if_neg]
  intro hmod'
  refine hmod (mod_eq_zero_of_dvd ?_)
  exact (pow_dvd_pow 512 (le_succ level)).trans (dvd_of_mod_eq_zero hmod')

include hlower hleaf in
lemma setNode_spec {p : Node} {st : SetState} {b : Nat}
    (hp : ∀ i, Built level (p i)) (hb : st.index / 512 ^ (level + 1) = b)
    (hfree : Unassigned (level + 1) b (.node 1 p) st)
    (hcap : st.nodesNb + (leftEdge st (512 ^ (level + 1)) + rightEdge st ((b + 1) * 512 ^ (level + 1))) *
      level ≤ cap) :
    ∃ p' st', setSlots lower leaf (512 ^ level) (512 - st.index / 512 ^ level % 512)
        (st.index / 512 ^ level % 512) p st = some (p', st') ∧
      SetsPages leaf (level + 1) b ((leftEdge st (512 ^ (level + 1)) +
        rightEdge st ((b + 1) * 512 ^ (level + 1))) * level) (.node 1 p) st (.node 1 p') st' := by
  have hq : 0 < 512 ^ (level + 1) := Nat.pow_pos (by decide)
  have hcost := Nat.mul_le_mul_right level (Nat.add_le_add_right (leftEdge_mono st level)
    (rightEdge st ((b + 1) * 512 ^ (level + 1))))
  have hindex : st.index / 512 ^ level = b * 512 + st.index / 512 ^ level % 512 := by
    rw [← hb, pow_succ, ← Nat.div_div_eq_div_mul, Nat.div_add_mod']
  have hslot : st.index / 512 ^ level % 512 < 512 := Nat.mod_lt _ (by decide)
  obtain ⟨p', st', hrun, hset⟩ := setSlots_spec hlower hleaf (Nat.sub_add_cancel hslot.le) hp
    (fun _ => hindex)
    (by
      have := ((div_eq_block hq).mp hb).2
      rw [add_mul, one_mul]
      exact this.le)
    (fun page hstart hlt hpage => by
      rw [← sectionAt_node]
      exact hfree page hstart hlt hpage)
    (le_trans (Nat.add_le_add_left hcost _) hcap)
  refine ⟨p', st', hrun, ⟨rfl, Nat.succ_le_succ (Nat.zero_le _), hset.built⟩, hset.index, hset.nb,
    hset.nodes.trans (Nat.add_le_add_left hcost _), fun page hpage => ?_⟩
  rw [sectionAt_node, sectionAt_node]
  exact hset.find page hpage

lemma fresh_built (level : Nat) :
    Built level (if level = 0 then .leaf physSectionUnassigned else .empty) := by
  split
  · next hzero => exact fun hle => absurd hzero (Nat.one_le_iff_ne_zero.mp hle)
  · next hpos => exact Nat.one_le_iff_ne_zero.mpr hpos

lemma sectionAt_fresh (level page : Nat) :
    sectionAt (if level = 0 then .leaf physSectionUnassigned else .empty) level page =
      physSectionUnassigned := by
  split
  · exact sectionAt_leaf _ _ _
  · next hpos => exact sectionAt_empty (Nat.one_le_iff_ne_zero.mpr hpos) page

include hleaf in
lemma setLevel_spec {nodesNbAlloc : Nat}
    (halloc : cap ≤ nodesNbAlloc) (hnil : cap ≤ physMapNodeNil)
    (hlower : ∀ m, level = m + 1 → SetsLevel cap leaf m lower) :
    SetsLevel cap leaf level (setLevel nodesNbAlloc leaf level lower) := by
  intro lp st b hlp hnb hb hfree hcost
  cases lp with
  | empty =>
    -- the entry gets a new node, in which no page is assigned
    have hroom : ¬(st.nodesNb = physMapNodeNil ∨ st.nodesNb = nodesNbAlloc) := by omega
    obtain ⟨p', st', hrun, hset⟩ := @setNode_spec cap leaf level lower hlower hleaf _
      { st with nodesNb := st.nodesNb + 1 } b (fun _ => fresh_built level) hb
      (fun page _ _ _ => by rw [sectionAt_node]; exact sectionAt_fresh level page) hcost
    refine ⟨.node 1 p', st', ?_, hset.built, hset.index, hset.nb, ?_, fun page hpage => ?_⟩
    · rw [setLevel, physMapNodeAlloc, if_neg hroom]
      exact Option.bind_eq_some_iff.mpr ⟨_, rfl, Option.bind_eq_some_iff.mpr ⟨_, hrun, rfl⟩⟩
    · exact hset.nodes.trans (le_of_eq (add_assoc _ _ _))
    · rw [hset.find page hpage, sectionAt_node, sectionAt_fresh,
        sectionAt_empty (succ_le_succ (zero_le _))]
  | leaf n => exact absurd (hfree st.index le_rfl (by omega) hb) (hlp (succ_le_succ (zero_le _)))
  | node skip p =>
    obtain ⟨rfl, _, hp⟩ := hlp
    obtain ⟨p', st', hrun, hset⟩ := setNode_spec hlower hleaf hp hb hfree (by omega)
    refine ⟨.node 1 p', st', Option.bind_eq_some_iff.mpr ⟨_, hrun, rfl⟩, hset.built, hset.index,
      hset.nb, ?_, hset.find⟩
    have := hset.nodes
    omega

include hleaf in
/-- `phys_page_set_level`, by induction on the levels. -/
lemma physPageSetLevel_spec {nodesNbAlloc : Nat}
    (halloc : cap ≤ nodesNbAlloc) (hnil : cap ≤ physMapNodeNil) :
    SetsLevel cap leaf level (physPageSetLevel nodesNbAlloc leaf level) := by
  induction level with
  | zero => exact setLevel_spec hleaf halloc hnil (fun m h => by omega)
  | succ level ih =>
    refine setLevel_spec hleaf halloc hnil fun m h => ?_
    obtain rfl := Nat.succ.inj h
    exact ih
end

lemma physMapNodeReserve_spec (nodes : Nat) (m : PhysMap) :
    (physMapNodeReserve nodes m).root = m.root ∧ (physMapNodeReserve nodes m).nodesNb = m.nodesNb ∧
      m.nodesNb + nodes ≤ (physMapNodeReserve nodes m).nodesNbAlloc := by
  rw [physMapNodeReserve]
  split
  · exact ⟨rfl, rfl, le_max_right _ _⟩
  · next h => exact ⟨rfl, rfl, not_lt.mp h⟩

/-- Pages that are not assigned get the section `leaf`, and nothing else changes. This takes at
most 11 nodes, for which there is room. -/
lemma physPageSet_spec {nb leaf : Nat} {m : PhysMap} (hm : Built pL2Levels m.root)
    (hleaf : leaf ≠ physSectionUnassigned) (hnb : nb ≠ 0) (hend : index + nb ≤ 512 ^ 6)
    (hfree : ∀ page, index ≤ page → page < index + nb →
      sectionAt m.root pL2Levels page = physSectionUnassigned)
    (hnodes : m.nodesNb + 11 ≤ physMapNodeNil) :
    ∃ m', physPageSet index nb leaf m = some m' ∧ Built pL2Levels m'.root ∧
      m'.nodesNb ≤ m.nodesNb + 11 ∧ ∀ page, page < 512 ^ 6 → sectionAt m'.root pL2Levels page =
        if index ≤ page ∧ page < index + nb then leaf else sectionAt m.root pL2Levels page := by
  obtain ⟨hroot, hnb', halloc⟩ := physMapNodeReserve_spec (3 * pL2Levels) m
  have hblock : ∀ page, page < 512 ^ 6 → page / 512 ^ 6 = 0 := fun page => div_eq_of_lt
  have hedges : leftEdge ⟨index, nb, m.nodesNb⟩ (512 ^ (5 + 1)) +
      rightEdge ⟨index, nb, m.nodesNb⟩ ((0 + 1) * 512 ^ (5 + 1)) ≤ 2 := by
    rw [leftEdge, rightEdge]
    split <;> split <;> decide
  obtain ⟨root, st, hrun, hset⟩ := @physPageSetLevel_spec (m.nodesNb + 11) leaf 5 hleaf _
    (le_trans (Nat.add_le_add_left (by decide) _) halloc) hnodes m.root ⟨index, nb, m.nodesNb⟩ 0 hm
    hnb (hblock _ (by dsimp only; omega)) (fun page hstart hlt _ => hfree page hstart hlt)
    (by dsimp only; omega)
  refine ⟨{ physMapNodeReserve (3 * pL2Levels) m with root := root, nodesNb := st.nodesNb }, ?_,
    hset.built, ?_, fun page hpage => ?_⟩
  · rw [physPageSet, hroot, hnb']
    exact Option.map_eq_some_iff.mpr ⟨_, hrun, rfl⟩
  · exact hset.nodes.trans (Nat.add_le_add_left (by omega) _)
  · have hindex : st.index = index + nb := hset.index.trans (min_eq_left (by dsimp only; omega))
    rw [← hindex]
    exact hset.find page (hblock page hpage)

/-- The loop of `phys_page_compact` from some entry on: if it meets no valid entry its result is
the one before, and if it meets one this is the one that it returns. -/
lemma validChild_foldl (p : Node) (l : List (Fin 512)) (acc : Option (Fin 512) × Nat) :
    let r := l.foldl (fun acc i => match p i with
      | .empty => acc
      | _ => (some i, acc.2 + 1)) acc
    acc.2 ≤ r.2 ∧ (r.2 = acc.2 → r = acc ∧ ∀ j ∈ l, p j = .empty) ∧
      (r.2 = acc.2 + 1 → ∀ j ∈ l, r.1 ≠ some j → p j = .empty) := by
  induction l generalizing acc with
  | nil => exact ⟨le_rfl, fun _ => ⟨rfl, nofun⟩, fun _ => nofun⟩
  | cons i l ih =>
    rw [foldl_cons]
    by_cases hi : p i = .empty
    · rw [hi]
      obtain ⟨hle, hsame, hone⟩ := ih acc
      refine ⟨hle, fun heq => ⟨(hsame heq).1, ?_⟩, fun heq j hj hne => ?_⟩
      · exact List.forall_mem_cons.mpr ⟨hi, (hsame heq).2⟩
      · rcases List.mem_cons.mp hj with rfl | hj
        · exact hi
        · exact hone heq j hj hne
    · rw [show (match p i with
        | .empty => acc
        | _ => (some i, acc.2 + 1)) = (some i, acc.2 + 1) by split <;> trivial]
      obtain ⟨hle, hsame, -⟩ := ih (some i, acc.2 + 1)
      refine ⟨le_of_succ_le hle, fun heq => absurd (heq ▸ hle) (not_succ_le_self _),
        fun heq j hj hne => ?_⟩
      -- the entry `i` is the one that is met, and none behind it
      obtain ⟨hacc, hrest⟩ := hsame heq
      rcases List.mem_cons.mp hj with rfl | hj
      · exact absurd (congrArg Prod.fst hacc) hne
      · exact hrest j hj

lemma validChild_eq_one {p : Node} {i : Fin 512} (h : validChild p = (some i, 1)) {j : Fin 512}
    (hj : j ≠ i) : p j = .empty := by
  have hone := (validChild_foldl p (finRange 512) (none, 0)).2.2
  rw [validChild] at h
  rw [h] at hone
  exact hone rfl j (mem_finRange j) fun heq => hj (Option.some.inj heq).symm

lemma physPageCompact_shrinks (h : Built l lp) : Shrinks l lp (physPageCompact lp) := by
  induction lp generalizing l with
  | empty => exact .refl h.levelled
  | leaf n => exact .refl trivial
  | node skip p ih =>
    obtain ⟨rfl, hl, hp⟩ := h
    have hnode : Shrinks l (.node 1 p) (.node 1 fun i => physPageCompact (p i)) :=
      .node le_rfl hl (fun i => (hp i).levelled) fun i => ih i (hp i)
    rw [physPageCompact]
    generalize hvalid : validChild p = valid
    unfold compactNode
    split
    · next i =>
      split
      · exact hnode
      · refine hnode.trans (.merge hl (fun j => (ih j (hp j)).levelled) fun j hj => ?_)
        rw [validChild_eq_one hvalid hj, physPageCompact]
    · exact hnode

end QemuVmi.Exec
