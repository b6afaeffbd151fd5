import QemuVmi.Virtio.Queue

/-!
# Bounds on what the guest can make the device read

Nothing that is loaded is trusted twice. A chain ends because each of its descriptors is counted and
the count is compared with the size of the table, and the heads end because each one adds to a count
that is compared with the size of the ring.

Results:
1. `collect_spec`, `availChain_spec`: the loads of one chain.
2. `descriptor_reads_bounded`: the loads of one call, whatever the guest has written.
-/

namespace QemuVmi.Virtio

open Interaction Interaction.Prog List Nat

section
variable (table : DescTable)

def InTable (i : Nat) : Prop := i < table.max ∨ (i = 0 ∧ table.max = 0)

def Req.reads : Req → Bool
  | .desc _ table' _ => table' = table
  | _ => false

def countReads (log : List Req) : Nat := log.countP (Req.reads table)
end

/-- Every load is inside its table, and no table is loaded from more often than `budget` says. -/
structure Within (budget : DescTable → Nat) (log : List Req) : Prop where
  inside : ∀ field table i, Req.desc field table i ∈ log → InTable table i
  count : ∀ table, countReads table log ≤ budget table

variable {log log' : List Req} {r : Req} {table : DescTable} {i head : Nat} {vq : VirtQueue}
  {b b' : DescTable → Nat}

lemma Within.append (h : Within b log) (h' : Within b' log') :
    Within (fun table => b table + b' table) (log ++ log') := by
  refine ⟨fun field table i hmem => ?_, fun table => ?_⟩
  · rcases mem_append.mp hmem with hmem | hmem
    · exact h.inside field table i hmem
    · exact h'.inside field table i hmem
  · rw [countReads, countP_append]
    exact Nat.add_le_add (h.count table) (h'.count table)

lemma Within.cons (h : Within b [r]) (h' : Within b' log) :
    Within (fun table => b table + b' table) (r :: log) :=
  h.append h'

lemma Within.mono (h : Within b log) (hle : ∀ table, b table ≤ b' table) : Within b' log :=
  ⟨h.inside, fun table => le_trans (h.count table) (hle table)⟩

lemma within_nil (b : DescTable → Nat) : Within b [] :=
  ⟨fun _ _ _ hmem => absurd hmem not_mem_nil, fun _ => zero_le _⟩

def only (table : DescTable) (k : Nat) : DescTable → Nat := fun t => if t = table then k else 0

def noReads : DescTable → Nat := fun _ => 0

lemma within_desc {field : DescField} (h : InTable table i) :
    Within (only table 1) [.desc field table i] := by
  refine ⟨fun field' table' i' hmem => ?_, fun t => ?_⟩
  · cases mem_singleton.mp hmem
    exact h
  rw [countReads, countP_singleton, only]
  by_cases ht : t = table
  · rw [if_pos ht]
    split <;> decide
  · rw [if_neg ht, if_neg]
    simpa [Req.reads] using Ne.symm ht

lemma within_other (h : ∀ field table i, r ≠ .desc field table i) : Within noReads [r] := by
  refine ⟨fun field table i hmem => ?_, fun t => ?_⟩
  · exact absurd (mem_singleton.mp hmem).symm (h field table i)
  · cases r with
    | desc field table i => exact absurd rfl (h field table i)
    | availIdx _ | availRing _ _ | setAvailEvent _ _ _ | map _ _ _ => exact le_refl _

def Post {α : Type} (budget : DescTable → Nat) (Q : α → Prop) (log : List Req)
    (out : Except Exit α) : Prop :=
  Within budget log ∧ match out with
    | .ok value => Q value
    | .error e => e.Intended

variable {α β : Type} {b b' : DescTable → Nat} {Q : α → Prop} {R : β → Prop} {p : Device α}

lemma Post.mono {Q' : α → Prop} (h : Always p (Post b Q))
    (hle : ∀ table, b table ≤ b' table) (hQ : ∀ value, Q value → Q' value) :
    Always p (Post b' Q') := by
  refine h.mono fun log out hpost => ⟨hpost.1.mono hle, ?_⟩
  cases out with
  | ok value => exact hQ value hpost.2
  | error e => exact hpost.2

lemma Post.bind {f : α → Device β} (hp : Always p (Post b Q))
    (hf : ∀ value, Q value → Always (f value) (Post b' R)) :
    Always (p >>= f) (Post (fun table => b table + b' table) R) := by
  refine hp.bind (fun log value hpost => ?_) fun log e hpost => ?_
  · refine (hf value hpost.2).mono fun log' out hpost' => ⟨hpost.1.append hpost'.1, hpost'.2⟩
  · exact ⟨hpost.1.mono fun table => le_add_right _ _, hpost.2⟩

variable {f : Nat → Device β} {size totalBufs : Nat}

lemma Post.word (hr : Within b [r])
    (hf : ∀ n, n < size → Always (f n) (Post b' R)) (hsize : 0 < size) :
    Always (Prog.word size r >>= f) (Post (fun table => b table + b' table) R) := by
  refine always_word.mpr fun n => ?_
  refine (hf (n % size) (mod_lt n hsize)).mono fun log out hpost => ⟨?_, hpost.2⟩
  exact hr.append hpost.1

lemma Post.other (hr : ∀ field table i, r ≠ .desc field table i)
    (hf : ∀ n, n < size → Always (f n) (Post noReads R)) (hsize : 0 < size) :
    Always (Prog.word size r >>= f) (Post noReads R) :=
  Post.word (within_other hr) hf hsize

lemma Post.pure {value : α} (h : Q value) : Always (Pure.pure value : Device α) (Post b Q) :=
  ⟨within_nil b, h⟩

lemma Post.stop {e : Exit} (h : e.Intended) : Always (.stop e : Device α) (Post b Q) :=
  ⟨within_nil b, h⟩

lemma virtqueueNextDesc_spec (hi : InTable table i) : Always (virtqueueNextDesc table i)
      (Post (only table 2) fun next => next = table.max ∨ next < table.max) := by
  have hspec : Always (virtqueueNextDesc table i)
      (Post (fun t => only table 1 t + (only table 1 t + noReads t))
        fun next => next = table.max ∨ next < table.max) := by
    refine Post.word (within_desc hi) (fun flags _ => ?_) (by decide)
    split
    · exact Post.pure (.inl rfl)
    refine Post.word (within_desc hi) (fun next _ => ?_) (by decide)
    split
    · exact Post.stop (by simp [Exit.Intended])
    · exact Post.pure (.inr (by omega))
  refine Post.mono hspec (fun t => ?_) fun _ h => h
  simp only [only, noReads]
  split <;> omega

lemma storeSg_spec {sg : List Sg} (entry : Sg) (h : sg.length < virtqueueMaxSize) :
    Always (storeSg sg entry) (Post noReads fun sg' => sg' = sg ++ [entry]) := by
  rw [storeSg, if_neg (by omega)]
  exact Post.pure rfl

def Fits (elem : VirtQueueElement) : Prop :=
  elem.inSg.length ≤ virtqueueMaxSize ∧ elem.outSg.length ≤ virtqueueMaxSize

lemma addDesc_spec (hi : InTable table i) {elem : VirtQueueElement} (hfits : Fits elem) :
    Always (addDesc table i elem)
      (Post (only table 3) fun elem' => Fits elem' ∧ elem'.num = elem.num + 1) := by
  have hspec : Always (addDesc table i elem)
      (Post (fun t => only table 1 t + (only table 1 t + (only table 1 t + (noReads t + noReads t))))
        fun elem' => Fits elem' ∧ elem'.num = elem.num + 1) := by
    refine Post.word (within_desc hi) (fun flags _ => ?_) (by decide)
    split
    · split
      · exact Post.stop (by decide)
      rename_i hlen
      refine Post.word (within_desc hi) (fun addr _ => ?_) (by decide)
      refine Post.word (within_desc hi) (fun len _ => ?_) (by decide)
      refine Post.bind (storeSg_spec ⟨addr, len⟩ (by omega)) fun inSg hin => Post.pure ?_
      subst hin
      simp only [Fits, VirtQueueElement.num, length_append, length_singleton]
      exact ⟨⟨by omega, hfits.2⟩, by omega⟩
    · split
      · exact Post.stop (by decide)
      rename_i hlen
      refine Post.word (within_desc hi) (fun addr _ => ?_) (by decide)
      refine Post.word (within_desc hi) (fun len _ => ?_) (by decide)
      refine Post.bind (storeSg_spec ⟨addr, len⟩ (by omega)) fun outSg hout => Post.pure ?_
      subst hout
      simp only [Fits, VirtQueueElement.num, length_append, length_singleton]
      exact ⟨⟨hfits.1, by omega⟩, by omega⟩
  refine Post.mono hspec (fun t => ?_) fun _ h => h
  simp only [only, noReads]
  split <;> omega

lemma collect_spec (n : Nat) : ∀ {table : DescTable} {i : Nat} (elem : VirtQueueElement),
    InTable table i → Fits elem → elem.num ≤ table.max → n = table.max + 1 - elem.num →
    Always (collect n table i elem) (Post (only table (5 * n)) Fits) := by
  induction n with
  | zero =>
    intro table i elem _ _ hnum hn
    omega
  | succ n ih =>
    intro table i elem hi hfits hnum hn
    have hspec : Always (collect (n + 1) table i elem)
        (Post (fun t => only table 3 t + (only table 2 t + only table (5 * n) t)) Fits) := by
      refine Post.bind (addDesc_spec hi hfits) fun elem' ⟨hfits', hnum'⟩ => ?_
      split
      · exact Post.stop (by decide)
      refine Post.bind (virtqueueNextDesc_spec hi) fun next hnext => ?_
      split
      · exact Post.pure hfits'
      next hmax hne =>
        have hlt : next < table.max := by omega
        exact ih elem' (.inl hlt) hfits' (by omega) (by omega)
    refine Post.mono hspec (fun t => ?_) fun _ h => h
    simp only [only]
    split <;> omega

/-- The loads of a chain whose lengths are summed up. A chain that ends has used the budget of its own
descriptors only. -/
def ChainPost (table : DescTable) (numBufs : Nat) (log : List Req)
    (out : Except Exit (Totals × Option Nat)) : Prop :=
  match out with
  | .ok (_, some numBufs') =>
    Within (only table (4 * (numBufs' - numBufs))) log ∧ numBufs < numBufs' ∧ numBufs' ≤ table.max
  | .ok (_, none) => Within (only table (4 * (table.max - numBufs))) log
  | .error e => Within (only table (4 * (table.max - numBufs))) log ∧ e.Intended

lemma within_only_append {j k m : Nat} (h : Within (only table j) log)
    (h' : Within (only table k) log') (hle : j + k ≤ m) : Within (only table m) (log ++ log') := by
  refine (h.append h').mono fun t => ?_
  simp only [only]
  split <;> omega

lemma ChainPost.step {numBufs : Nat} {out : Except Exit (Totals × Option Nat)}
    (hlt : numBufs < table.max) (h : Within (only table 4) log)
    (h' : ChainPost table (numBufs + 1) log' out) : ChainPost table numBufs (log ++ log') out := by
  match out, h' with
  | .ok (_, some numBufs'), ⟨hwithin, hless, hmax⟩ =>
    exact ⟨within_only_append h hwithin (by omega), by omega, hmax⟩
  | .ok (_, none), hwithin => exact within_only_append h hwithin (by omega)
  | .error _, ⟨hwithin, he⟩ => exact ⟨within_only_append h hwithin (by omega), he⟩

lemma availChain_spec (maxIn maxOut n : Nat) : ∀ (table : DescTable) {i : Nat} (numBufs : Nat)
    {totals : Totals}, (numBufs < table.max → i < table.max) → numBufs ≤ table.max →
    table.max + 1 - numBufs ≤ n →
    Always (availChain maxIn maxOut n table i numBufs totals) (ChainPost table numBufs) := by
  induction n with
  | zero =>
    intro table i numBufs totals _ hle hn
    omega
  | succ n ih =>
    intro table i numBufs totals hi hle hn
    rw [availChain]
    split
    · exact ⟨within_nil _, by decide⟩
    rename_i hbufs
    have hlt : numBufs < table.max := by omega
    have hin : InTable table i := .inl (hi hlt)
    refine always_word.mpr fun flags => always_word.mpr fun len => ?_
    have htwo : Within (only table 2) ([.desc .flags table i] ++ [.desc .len table i]) :=
      within_only_append (within_desc hin) (within_desc hin) (by omega)
    extract_lets totals'
    split
    · -- enough bytes: the function is done
      exact htwo.mono fun t => by
        simp only [only]
        split <;> omega
    refine (virtqueueNextDesc_spec hin).bind (fun log next hpost => ?_) fun log e hpost => ?_
    · have hfour : Within (only table 4) (([.desc .flags table i] ++ [.desc .len table i]) ++ log) :=
        within_only_append htwo hpost.1 (by omega)
      split
      · -- the last descriptor of the chain
        refine ⟨?_, lt_succ_self numBufs, hlt⟩
        rwa [Nat.add_sub_cancel_left, append_nil]
      next hne =>
        have hnext : next < table.max := hpost.2.resolve_left hne
        exact (ih table _ (fun _ => hnext) hlt (by omega)).mono fun log' out hrest =>
          ChainPost.step hlt hfour hrest
    · exact ⟨within_only_append htwo hpost.1 (by omega), hpost.2⟩

lemma virtqueueNumHeads_spec (vq : VirtQueue) (idx : Nat) :
    Always (virtqueueNumHeads vq idx) (Post noReads fun heads => heads ≤ vq.vring.num) := by
  refine Post.other (by simp) (fun avail _ => ?_) (by decide)
  dsimp only
  split
  · exact Post.other (by simp) (fun _ _ => Post.stop (by simp [Exit.Intended])) (by decide)
  · exact Post.pure (by omega)

lemma virtqueueGetHead_spec (h : vq.vring.num ≠ 0) (idx : Nat) :
    Always (virtqueueGetHead vq idx) (Post noReads fun head => head < vq.vring.num) := by
  rw [virtqueueGetHead, if_neg h]
  refine Post.other (by simp) (fun head _ => ?_) (by decide)
  split
  · exact Post.stop (by simp [Exit.Intended])
  · exact Post.pure (by omega)

lemma indirectTable_spec {ring : DescTable} (h : InTable ring head) :
    Always (indirectTable ring head) (Post (only ring 2) fun _ => True) := by
  have hspec : Always (indirectTable ring head)
      (Post (fun t => only ring 1 t + (only ring 1 t + noReads t)) fun _ => True) :=
    Post.word (within_desc h) (fun _ _ =>
      Post.word (within_desc h) (fun _ _ => Post.pure trivial) (by decide)) (by decide)
  refine Post.mono hspec (fun t => ?_) fun _ h => h
  simp only [only, noReads]
  split <;> omega

/-! ## `virtqueue_pop` -/

def popBudget (vq : VirtQueue) (table : DescTable) : DescTable → Nat :=
  fun t => only vq.ring 4 t + only table (5 * (table.max + 1)) t

def PopPost (vq : VirtQueue) (log : List Req) (out : Except Exit (VirtQueue × Option VirtQueueElement)) :
    Prop :=
  ∃ table, Post (popBudget vq table) (fun r => ∀ elem, r.2 = some elem → Fits elem) log out

lemma chainStart_spec (vq : VirtQueue) (h : head < vq.vring.num) :
    Always (chainStart vq head) (Post (only vq.ring 4) fun r => InTable r.1 r.2) := by
  have hin : InTable vq.ring head := .inl h
  have hspec : Always (chainStart vq head)
      (Post (fun t => only vq.ring 1 t + (only vq.ring 1 t + (only vq.ring 2 t + noReads t)))
        fun r => InTable r.1 r.2) := by
    refine Post.word (within_desc hin) (fun flags _ => ?_) (by decide)
    split
    · refine Post.word (within_desc hin) (fun len _ => ?_) (by decide)
      split
      · exact Post.stop (by decide)
      · refine Post.bind (indirectTable_spec hin) fun table _ => Post.pure ?_
        exact (Nat.eq_zero_or_pos table.max).elim (fun hzero => .inr ⟨rfl, hzero⟩) .inl
    · exact Post.pure hin
  refine Post.mono hspec (fun t => ?_) fun _ h => h
  simp only [only, noReads]
  split <;> omega

lemma publishAvailEvent_spec (eventIdx : Bool) (vq : VirtQueue) :
    Always (publishAvailEvent eventIdx vq) (Post noReads fun _ => True) := by
  rw [publishAvailEvent]
  split
  · refine Post.other (by simp) (fun avail _ => ?_) (by decide)
    rw [vringAvailEvent]
    split
    · exact Post.other (by simp) (fun _ _ => Post.pure trivial) (by decide)
    · exact Post.pure trivial
  · exact Post.pure trivial

lemma virtqueueMapSg_spec (isWrite : Bool) (sg : List Sg) :
    Always (virtqueueMapSg isWrite sg) (Post noReads fun _ => True) := by
  induction sg with
  | nil => exact Post.pure trivial
  | cons entry sg ih =>
    refine Post.other (by simp) (fun mapped _ => ?_) (by decide)
    split
    · exact Post.stop (by decide)
    · exact ih

lemma PopPost.after {f : α → Device (VirtQueue × Option VirtQueueElement)}
    (hp : Always p (Post noReads Q)) (hf : ∀ value, Q value → Always (f value) (PopPost vq)) :
    Always (p >>= f) (PopPost vq) := by
  refine hp.bind (fun log value hpost => ?_) fun log e hpost => ?_
  · refine (hf value hpost.2).mono fun log' out ⟨table, hwithin, hout⟩ => ⟨table, ?_, hout⟩
    exact (hpost.1.append hwithin).mono fun t => by simp [noReads]
  · exact ⟨vq.ring, hpost.1.mono fun _ => zero_le _, hpost.2⟩

lemma virtqueuePop_spec (eventIdx : Bool) (vq : VirtQueue) :
    Always (virtqueuePop eventIdx vq) (PopPost vq) := by
  refine PopPost.after (virtqueueNumHeads_spec vq _) fun heads hheads => ?_
  split
  · exact ⟨vq.ring, within_nil _, by simp⟩
  refine PopPost.after (virtqueueGetHead_spec (by omega) _) fun head hhead => ?_
  refine PopPost.after (publishAvailEvent_spec eventIdx _) fun _ _ => ?_
  -- the chain: its table is known from here on
  refine (chainStart_spec { vq with lastAvailIdx := _ } hhead).bind
    (fun log r hpost => ?_) fun log e hpost => ?_
  · obtain ⟨table, i⟩ := r
    have hrest := Post.bind (f := fun elem => do
        virtqueueMapSg true elem.inSg
        virtqueueMapSg false elem.outSg
        pure ({ vq with
          lastAvailIdx := (vq.lastAvailIdx + 1) % 0x10000, inuse := vq.inuse + 1 }, some elem))
      (R := fun r => ∀ elem, r.2 = some elem → Fits elem)
      (collect_spec (table.max + 1) ⟨head, [], []⟩ hpost.2 (by simp [Fits])
        (zero_le _) rfl) fun elem hfits =>
      Post.bind (virtqueueMapSg_spec true elem.inSg) fun _ _ =>
        Post.bind (virtqueueMapSg_spec false elem.outSg) fun _ _ =>
          Post.pure (b := noReads) (by
            rintro elem' ⟨⟩
            exact hfits)
    refine hrest.mono fun log' out ⟨hwithin, hout⟩ => ⟨table, ?_, hout⟩
    exact (hpost.1.append hwithin).mono fun t => by simp [noReads, popBudget, VirtQueue.ring]
  · exact ⟨vq.ring, hpost.1.mono fun t => le_add_right _ _, hpost.2⟩

/-! ## `virtqueue_get_avail_bytes` -/

def spent (tables : List DescTable) : DescTable → Nat :=
  fun t => (tables.map fun table => only table (4 * (table.max + 1)) t).sum

def availBudget (vq : VirtQueue) (k : Nat) (tables : List DescTable) : DescTable → Nat :=
  fun t => only vq.ring k t + spent tables t

def HeadPost (vq : VirtQueue) (totalBufs : Nat) (log : List Req)
    (out : Except Exit (Totals × Option Nat)) : Prop :=
  ∃ used tables, tables.length ≤ 1 ∧ Within (availBudget vq (4 + 4 * used) tables) log ∧
    match out with
    | .ok (_, some totalBufs') =>
      totalBufs < totalBufs' ∧ totalBufs' ≤ vq.vring.num ∧ used ≤ totalBufs' - totalBufs
    | .ok (_, none) => used ≤ vq.vring.num - totalBufs
    | .error e => used ≤ vq.vring.num - totalBufs ∧ e.Intended

lemma indirectChain_spec (maxIn maxOut : Nat) (totals : Totals) (hhead : InTable vq.ring head) :
    Always (do
        let table ← indirectTable vq.ring head
        let (totals, numBufs) ← availChain maxIn maxOut (table.max + 1) table 0 0 totals
        pure (totals, numBufs.map fun _ => totalBufs + 1))
      fun log out => ∃ table,
        Within (fun t => only vq.ring 2 t + only table (4 * (table.max + 1)) t) log ∧
        match out with
        | .ok (_, some totalBufs') => totalBufs' = totalBufs + 1
        | .ok (_, none) => True
        | .error e => e.Intended := by
  refine (indirectTable_spec hhead).bind (fun log table hpost => ?_) fun log e hpost => ?_
  · refine (availChain_spec maxIn maxOut (table.max + 1) table 0
      (fun h => h) (zero_le _) (le_refl _)).bind (fun log' r hchain => ?_)
      fun log' e hchain => ?_
    · obtain ⟨totals', numBufs⟩ := r
      have hwithin : Within (only table (4 * (table.max + 1))) log' := by
        cases numBufs with
        | none =>
          refine Within.mono hchain fun t => ?_
          simp only [only]
          split <;> omega
        | some numBufs' =>
          refine Within.mono hchain.1 fun t => ?_
          have hmax := hchain.2.2
          simp only [only]
          split <;> omega
      refine ⟨table, ?_, ?_⟩
      · rw [append_nil]
        exact hpost.1.append hwithin
      · cases numBufs with
        | none => trivial
        | some numBufs' => rfl
    · refine ⟨table, hpost.1.append (hchain.1.mono fun t => ?_), hchain.2⟩
      simp only [only]
      split <;> omega
  · exact ⟨vq.ring, hpost.1.mono fun t => le_add_right _ _, hpost.2⟩

lemma availHead_spec (maxIn maxOut idx : Nat) (totals : Totals)
    (hnum : vq.vring.num ≠ 0) (htotal : totalBufs ≤ vq.vring.num) :
    Always (availHead vq maxIn maxOut idx totalBufs totals) (HeadPost vq totalBufs) := by
  refine (virtqueueGetHead_spec hnum idx).bind (fun log head hpost => ?_) fun log e hpost => ?_
  · have hin : InTable vq.ring head := .inl hpost.2
    have hlog : Within noReads log := hpost.1
    refine always_word.mpr fun flags => ?_
    have hflags : Within (only vq.ring 1) [.desc .flags vq.ring head] := within_desc hin
    split
    · refine always_word.mpr fun len => ?_
      have hlen : Within (only vq.ring 1) [.desc .len vq.ring head] := within_desc hin
      -- the loads so far, for an exit
      have hsofar : Within (availBudget vq (4 + 4 * 0) [])
          (log ++ [.desc .flags vq.ring head, .desc .len vq.ring head]) := by
        refine (hlog.append (hflags.append hlen)).mono fun t => ?_
        simp only [noReads, availBudget, only]
        split <;> omega
      split
      · exact ⟨0, [], by decide, hsofar, zero_le _, by decide⟩
      split
      · exact ⟨0, [], by decide, hsofar, zero_le _, by decide⟩
      rename_i hless
      refine (indirectChain_spec maxIn maxOut totals hin).mono
        fun log' out ⟨table, hwithin, hout⟩ => ⟨0, [table], by simp, ?_, ?_⟩
      · refine (hlog.append (hflags.cons (hlen.cons hwithin))).mono fun t => ?_
        simp only [noReads, availBudget, only, spent, map_cons, map_nil, sum_cons, sum_nil]
        split <;> omega
      match out, hout with
      | .ok (_, some totalBufs'), hout => exact ⟨by omega, by omega, by omega⟩
      | .ok (_, none), _ => exact zero_le _
      | .error _, hout => exact ⟨zero_le _, hout⟩
    · -- a chain in the ring, counted from `total_bufs` on
      refine (availChain_spec maxIn maxOut (vq.vring.num + 1) vq.ring _ (fun _ => hpost.2)
        htotal (by simp only [VirtQueue.ring]; omega)).mono fun log' out hchain => ?_
      have hall : ∀ k, Within (only vq.ring (4 * k)) log' → Within (availBudget vq (4 + 4 * k) [])
            (log ++ (.desc .flags vq.ring head :: log')) := by
        intro k hk
        refine (hlog.append (hflags.cons hk)).mono fun t => ?_
        simp only [noReads, availBudget, only]
        split <;> omega
      match out, hchain with
      | .ok (_, some totalBufs'), hchain =>
        exact ⟨_, [], by decide, hall _ hchain.1, hchain.2.1, hchain.2.2, le_refl _⟩
      | .ok (_, none), hchain => exact ⟨_, [], by decide, hall _ hchain, le_refl _⟩
      | .error _, hchain => exact ⟨_, [], by decide, hall _ hchain.1, le_refl _, hchain.2⟩
  · exact ⟨0, [], by decide, hpost.1.mono fun _ => zero_le _, zero_le _, hpost.2⟩

/-- The loads of the loop over the heads: a head that is done with adds to `total_bufs`. -/
lemma availHeads_spec (vq : VirtQueue) (maxIn maxOut n : Nat) : ∀ {idx totalBufs : Nat}
    {totals : Totals}, totalBufs ≤ vq.vring.num → vq.vring.num + 1 - totalBufs ≤ n →
    Always (availHeads vq maxIn maxOut n idx totalBufs totals) fun log out =>
      ∃ tables, tables.length ≤ n ∧
        Post (availBudget vq (8 * (vq.vring.num + 1 - totalBufs)) tables) (fun _ => True) log out := by
  induction n with
  | zero =>
    intro idx totalBufs totals hle hn
    omega
  | succ n ih =>
    intro idx totalBufs totals hle hn
    rw [availHeads]
    refine (virtqueueNumHeads_spec vq idx).bind (fun log heads hpost => ?_) fun log e hpost => ?_
    · split
      · exact ⟨[], by simp, by
          rw [append_nil]
          exact hpost.1.mono fun _ => zero_le _, trivial⟩
      have hnum : vq.vring.num ≠ 0 := by
        have := hpost.2
        omega
      refine (availHead_spec maxIn maxOut idx totals hnum hle).bind (fun log' r hhead => ?_)
        fun log' e hhead => ?_
      · obtain ⟨totals', total⟩ := r
        obtain ⟨used, tables, hlen, hwithin, hout⟩ := hhead
        cases total with
        | none =>
          refine ⟨tables, by omega, ?_, trivial⟩
          rw [append_nil]
          refine (hpost.1.append hwithin).mono fun t => ?_
          simp only [noReads, availBudget, only]
          split <;> omega
        | some totalBufs' =>
          obtain ⟨hless, hmax, hused⟩ := hout
          refine (ih hmax (by omega)).mono fun log'' out ⟨tables', hlen', hwithin', hout'⟩ =>
            ⟨tables ++ tables', by rw [length_append]; omega, ?_, hout'⟩
          refine (hpost.1.append (hwithin.append hwithin')).mono fun t => ?_
          simp only [noReads, availBudget, only, spent, map_append, List.sum_append_nat]
          split <;> omega
      · obtain ⟨used, tables, hlen, hwithin, hused, he⟩ := hhead
        refine ⟨tables, by omega, (hpost.1.append hwithin).mono fun t => ?_, he⟩
        simp only [noReads, availBudget, only]
        split <;> omega
    · exact ⟨[], by simp, hpost.1.mono fun _ => zero_le _, hpost.2⟩

/-- Whatever the guest answers to each load: the loads of descriptors are inside their table, they are
bounded by the sizes of the ring and of the indirect tables, no loop needs more rounds than the model
gives it, and the arrays of an element are not overrun. `virtqueue_pop` follows one chain; there is at
most one indirect table for each round of `virtqueue_get_avail_bytes`, of which there are at most as
many as descriptors in the ring and one more. -/
theorem descriptor_reads_bounded (vq : VirtQueue) (eventIdx : Bool) (maxInBytes maxOutBytes : Nat)
    (guest : List Req → Req → Nat) :
    (∃ table, Post (popBudget vq table) (fun r => ∀ elem, r.2 = some elem → Fits elem)
      ((virtqueuePop eventIdx vq).run guest []).1 ((virtqueuePop eventIdx vq).run guest []).2) ∧
    ∃ tables, tables.length ≤ vq.vring.num + 1 ∧
      Post (availBudget vq (8 * (vq.vring.num + 1)) tables) (fun _ => True)
        ((virtqueueGetAvailBytes vq maxInBytes maxOutBytes).run guest []).1
        ((virtqueueGetAvailBytes vq maxInBytes maxOutBytes).run guest []).2 :=
  ⟨(virtqueuePop_spec eventIdx vq).run_nil guest,
    (availHeads_spec vq maxInBytes maxOutBytes (vq.vring.num + 1) (zero_le _)
      (le_refl _)).run_nil guest⟩

-- a guest that chains every descriptor to the first one
example : let vq : VirtQueue := ⟨⟨2, 4096, 0x1000, 0x1020, 0x2000⟩, 0x1000, 0, 0, false, true, 0, 0⟩
    let guest : List Req → Req → Nat := fun _ r =>
      match r with
      | .desc .flags _ _ => vringDescFNext
      | .availIdx _ => 1
      | _ => 0
    ((virtqueuePop true vq).run guest []).2 = .error .looped := by
  rfl

end QemuVmi.Virtio
