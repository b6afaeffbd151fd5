import QemuVmi.KvmCrypto.QueueInvariant

/-!
# The order of the crypto queue

For any number of producers and consumers and any interleaving of their steps, as
long as no wait is interrupted and the pool is not reclaimed (in 3 and 4, with the
bytes that are written behind a buffer):

1. `run_spends`: the consumers make a bounded number of steps for each job, so they
   come to rest when no more jobs are submitted.
2. `exists_consumerStep`: and they rest only on an empty queue.
3. `crypto_queue_fifo`: the queue is the chain that `head`, `tail` and `num` say it
   is, every submitted job is dequeued once and in the order of the submissions,
   and a producer copies back what a consumer has made of its own input, if the
   headers are not too long and the jobs are of whole blocks.
4. `crypto_output_overwritten`: two jobs of half a block.
-/

namespace QemuVmi.KvmCrypto

open Function LinkedChain List Finset Nat

variable {n : Nat} {cipher : BlockCipher}

def Action.Uninterrupted : Action n → Prop
  | .wake _ interrupted => interrupted = false
  | .poll _ interrupted => interrupted = false
  | .reclaim _ => False
  | _ => True

def Action.byConsumer : Action n → Bool
  | .poll _ _ => true
  | .dequeue _ => true
  | .compute _ _ _ => true
  | .finish _ => true
  | .loop _ => true
  | _ => false

variable {a : Action n} {s s' : State n} {cid : Fin n} {ph : Consumer} {l : List Nat}

lemma Action.Uninterrupted.calm (h : a.Uninterrupted) (s : State n) : Calm s a := by
  cases a with
  | wake pid interrupted =>
    intro hsignal
    cases hsignal.symm.trans (show interrupted = false from h)
  | reclaim fuel => exact h.elim
  | _ => trivial

lemma runCalm_of_uninterrupted {acts : List (Action n)} (h : ∀ a ∈ acts, a.Uninterrupted)
    (s : State n) : RunCalm cipher s acts := by
  induction acts generalizing s with
  | nil => trivial
  | cons a acts ih =>
    refine ⟨(h a mem_cons_self).calm s, fun s' _ => ?_⟩
    exact ih (fun b hb => h b (mem_cons_of_mem a hb)) s'

/-- The steps that a consumer can still make without taking a job. It goes around
once, and with jobs in the queue it then takes one. -/
def Consumer.rank (jobs : Bool) : Consumer → Nat
  | .polling => if jobs then 1 else 0
  | .entering => if jobs then 0 else 2
  | .processing _ => if jobs then 4 else 3
  | .computed _ => if jobs then 3 else 2
  | .looping => if jobs then 2 else 1
  | .exited => 0

def State.rank (s : State n) : Nat := ∑ cid, (s.consumers cid).rank (decide (0 < s.num))

def Running (s : State n) : Prop := s.stop = false ∧ ∀ cid, s.consumers cid ≠ .exited

lemma Consumer.rank_le (jobs : Bool) (c : Consumer) : c.rank jobs ≤ 4 := by
  cases c <;> cases jobs <;> simp [Consumer.rank]

lemma rank_le (s : State n) : s.rank ≤ 4 * n := by
  have hsum := sum_le_card_nsmul univ _ _ fun cid _ =>
    (s.consumers cid).rank_le (decide (0 < s.num))
  rwa [Finset.card_univ, Fintype.card_fin, smul_eq_mul, mul_comm] at hsum

lemma rank_update (h : s'.consumers = update s.consumers cid ph) (hnum : s'.num = s.num) :
    s'.rank + (s.consumers cid).rank (decide (0 < s.num)) =
      s.rank + ph.rank (decide (0 < s.num)) := by
  have hrest : ∑ cid' ∈ Finset.univ.erase cid, (s'.consumers cid').rank (decide (0 < s.num)) =
      ∑ cid' ∈ Finset.univ.erase cid, (s.consumers cid').rank (decide (0 < s.num)) :=
    sum_congr rfl fun cid' hcid' => by rw [h, update_of_ne (ne_of_mem_erase hcid')]
  rw [State.rank, State.rank, hnum, ← add_sum_erase _ _ (mem_univ cid),
    ← add_sum_erase _ (fun cid' => (s.consumers cid').rank (decide (0 < s.num)))
      (mem_univ cid), hrest, h, update_self]
  omega

lemma Running.update (h : Running s) (hstop : s'.stop = s.stop)
    (hconsumers : s'.consumers = update s.consumers cid ph) (hph : ph ≠ .exited) : Running s' := by
  refine ⟨hstop.trans h.1, fun cid' => ?_⟩
  rw [hconsumers]
  by_cases heq : cid' = cid
  · rwa [heq, update_self]
  · rw [update_of_ne heq]
    exact h.2 cid'

/-- The budget of the consumers: each submission and each dequeue lets all of them
go around once more. -/
def State.budget (s : State n) : Nat := (4 * n + 1) * (s.dequeued.length + s.submitted.length)

/-- A step after which the consumers have done `d` more steps, within the budget. -/
def Spends (s s' : State n) (d : Nat) : Prop := d + s'.rank + s.budget ≤ s.rank + s'.budget

lemma spends_of_event {d : Nat} (hd : d ≤ 1)
    (hevent : s'.dequeued.length + s'.submitted.length = s.dequeued.length + s.submitted.length + 1) :
    Spends s s' d := by
  have hrank := rank_le s'
  unfold Spends State.budget
  rw [hevent, mul_succ]
  omega

lemma spends_of_rank (hconsumers : s'.consumers = Function.update s.consumers cid ph)
    (hnum : s'.num = s.num) (hlog : s'.dequeued = s.dequeued ∧ s'.submitted = s.submitted)
    (hrank : 1 + ph.rank (decide (0 < s.num)) ≤ (s.consumers cid).rank (decide (0 < s.num))) :
    Spends s s' 1 := by
  have hupdate := rank_update hconsumers hnum
  unfold Spends State.budget
  rw [hlog.1, hlog.2]
  omega

lemma spends_zero (hconsumers : s'.consumers = s.consumers) (hnum : s'.num = s.num)
    (hlog : s'.dequeued = s.dequeued ∧ s'.submitted = s.submitted) : Spends s s' 0 := by
  unfold Spends State.budget State.rank
  rw [hconsumers, hnum, hlog.1, hlog.2]
  omega

lemma producerStep_spends (hr : Running s) (ha : a.Uninterrupted)
    (hproducer : a.byConsumer = false) (hstep : s.step cipher a = some s') :
    Running s' ∧ Spends s s' 0 := by
  cases step_cases hstep with
  | @prepare pid p _ _ hprepare =>
    cases p with
    | unreadable =>
      cases hprepare
      exact ⟨hr, spends_zero rfl rfl ⟨rfl, rfl⟩⟩
    | inputUnreadable len a b | ready vjob a b j input =>
      simp only [State.prepare, Option.ite_none_right_eq_some, Option.some.injEq] at hprepare
      exact hprepare.2 ▸ ⟨hr, spends_zero rfl rfl ⟨rfl, rfl⟩⟩
  | enqueue _ henqueue =>
    simp only [State.enqueue] at henqueue
    split at henqueue
    · cases henqueue
    unfold State.linkJob at henqueue
    split at henqueue
    · cases henqueue
      exact ⟨hr, spends_of_event (zero_le 1) (by simp [add_assoc])⟩
    split at henqueue
    · cases henqueue
    · cases henqueue
      exact ⟨hr, spends_of_event (zero_le 1) (by simp [add_assoc])⟩
  | wake _ _ | writeBack _ => exact ⟨hr, spends_zero rfl rfl ⟨rfl, rfl⟩⟩
  | @cleanup pid rest _ _ =>
    cases rest with
    | nil => exact ⟨hr, spends_zero rfl rfl ⟨rfl, rfl⟩⟩
    | cons p rest =>
      cases p with
      | job a | buf a => exact ⟨hr, spends_zero rfl rfl ⟨rfl, rfl⟩⟩
  | reclaim _ => exact ha.elim
  | _ => cases hproducer

lemma consumerStep_spends (hr : Running s) (ha : a.Uninterrupted)
    (hconsumer : a.byConsumer = true) (hstep : s.step cipher a = some s') :
    Running s' ∧ Spends s s' 1 := by
  cases step_cases hstep with
  | @poll cid interrupted hc hwait =>
    obtain rfl : interrupted = false := ha
    have hnum : 0 < s.num := by simpa [hr.1] using hwait
    refine ⟨hr.update rfl rfl (by simp), spends_of_rank rfl rfl ⟨rfl, rfl⟩ ?_⟩
    rw [hc, decide_eq_true hnum]
    decide
  | dequeue hc hdequeue =>
    simp only [State.dequeue] at hdequeue
    split at hdequeue
    · split at hdequeue
      · cases hdequeue
      · cases hdequeue
        refine ⟨hr.update rfl rfl (by simp), spends_of_event (le_refl 1) ?_⟩
        simp only [length_append, length_singleton]
        omega
    · next hnum =>
      cases hdequeue
      refine ⟨hr.update rfl rfl (by simp), spends_of_rank rfl rfl ⟨rfl, rfl⟩ ?_⟩
      rw [hc, decide_eq_false hnum]
      decide
  | compute hc hcompute =>
    obtain ⟨job, _, hrun⟩ := Option.bind_eq_some_iff.mp hcompute
    obtain ⟨out, _, rfl⟩ := Option.map_eq_some_iff.mp hrun
    refine ⟨hr.update rfl rfl (by simp), spends_of_rank rfl rfl ⟨rfl, rfl⟩ ?_⟩
    rw [hc]
    cases decide (0 < s.num) <;> exact le_refl _
  | finish hc hfinish =>
    obtain ⟨job, _, rfl⟩ := Option.map_eq_some_iff.mp hfinish
    refine ⟨hr.update rfl rfl (by simp), spends_of_rank rfl rfl ⟨rfl, rfl⟩ ?_⟩
    rw [hc]
    cases decide (0 < s.num) <;> exact le_refl _
  | loop hc =>
    have hnext : (if s.stop then Consumer.exited else .polling) = .polling := by
      rw [hr.1]
      rfl
    rw [hnext]
    refine ⟨hr.update rfl rfl (by simp), spends_of_rank rfl rfl ⟨rfl, rfl⟩ ?_⟩
    rw [hc]
    cases decide (0 < s.num) <;> exact le_refl _
  | _ => cases hconsumer

lemma run_spends {acts : List (Action n)} (hr : Running s) (hacts : ∀ a ∈ acts, a.Uninterrupted)
    (hrun : s.run cipher acts = some s') :
    Running s' ∧ Spends s s' (acts.countP Action.byConsumer) := by
  induction acts generalizing s with
  | nil =>
    cases hrun
    exact ⟨hr, spends_zero rfl rfl ⟨rfl, rfl⟩⟩
  | cons a acts ih =>
    obtain ⟨t, hstep, hrest⟩ := Option.bind_eq_some_iff.mp hrun
    have ha := hacts a mem_cons_self
    have hacts' : ∀ b ∈ acts, b.Uninterrupted := fun b hb => hacts b (mem_cons_of_mem a hb)
    cases hby : a.byConsumer with
    | true =>
      obtain ⟨hrt, hfirst⟩ := consumerStep_spends hr ha hby hstep
      obtain ⟨hrs, hspends⟩ := ih hrt hacts' hrest
      refine ⟨hrs, ?_⟩
      rw [countP_cons_of_pos hby]
      unfold Spends at *
      omega
    | false =>
      obtain ⟨hrt, hfirst⟩ := producerStep_spends hr ha hby hstep
      obtain ⟨hrs, hspends⟩ := ih hrt hacts' hrest
      refine ⟨hrs, ?_⟩
      rw [countP_cons_of_neg (by simp [hby])]
      unfold Spends at *
      omega

lemma CallOk.len_le {c : Call} {job : CryptoJob} (h : CallOk s c job) :
    job.len.toNat ≤ kmallocMaxSize := by
  rw [h.len, h.length]
  exact h.small

lemma len_bounds {len : BitVec 32} (hlen : len.toNat ≤ kmallocMaxSize) :
    len.toInt = len.toNat ∧ len.toNat ≤ 2 ^ 31 - aesBlockSize := by
  unfold kmallocMaxSize at hlen
  refine ⟨BitVec.toInt_eq_toNat_of_lt (by omega), ?_⟩
  unfold aesBlockSize
  omega

lemma exists_runJob (cipher : BlockCipher) (operation : BitVec 32) {len : BitVec 32}
    (hlen : len.toNat ≤ kmallocMaxSize) (input output : List Byte) (beyond : Nat → Byte) :
    ∃ fuel out, runJob cipher operation len input output beyond fuel = some out := by
  obtain ⟨hint, hsmall⟩ := len_bounds hlen
  refine ⟨blocks len.toNat + 1, ?_⟩
  unfold runJob processJob aesEncrypt aesDecrypt
  split
  · rw [cryptLoop_ends _ _ _ hint hsmall (lt_succ_self _)]
    exact ⟨_, rfl⟩
  split
  · rw [cryptLoop_ends _ _ _ hint hsmall (lt_succ_self _)]
    exact ⟨_, rfl⟩
  · exact ⟨_, rfl⟩

lemma Inv.num_pos (h : Inv cipher s l) (hl : l ≠ []) : 0 < s.num := by
  rw [h.queue.num]
  exact_mod_cast length_pos_iff.mpr hl

lemma exists_consumerStep (h : Inv cipher s l) (hr : Running s) (hl : l ≠ []) (cid : Fin n) :
    ∃ a : Action n, a.byConsumer = true ∧ a.Uninterrupted ∧ s.step cipher a ≠ none := by
  cases hc : s.consumers cid with
  | polling =>
    refine ⟨.poll cid false, rfl, rfl, ?_⟩
    simp [State.step, hc, h.num_pos hl]
  | entering =>
    refine ⟨.dequeue cid, rfl, trivial, ?_⟩
    cases l with
    | nil => exact absurd rfl hl
    | cons nj l =>
      have hhead : s.head = some nj := h.queue.chain.1
      simp [State.step, hc, State.dequeue, h.num_pos hl, hhead]
  | processing nj =>
    obtain ⟨pid, c, job, _, rfl, hcall, _⟩ := h.owner_of_held (congrArg Consumer.held hc)
    obtain ⟨fuel, out, hout⟩ := exists_runJob cipher job.operation hcall.len_le
      (bufAt s.bufs job.input) (bufAt s.bufs job.output) fun _ => 0#8
    refine ⟨.compute cid (fun _ => 0#8) fuel, rfl, trivial, ?_⟩
    simp [State.step, hc, State.compute, hcall.stored, hout]
  | computed nj =>
    obtain ⟨pid, c, job, _, rfl, hcall, _⟩ := h.owner_of_held (congrArg Consumer.held hc)
    refine ⟨.finish cid, rfl, trivial, ?_⟩
    simp [State.step, hc, State.finish, hcall.stored]
  | looping =>
    refine ⟨.loop cid, rfl, trivial, ?_⟩
    simp [State.step, hc]
  | exited => exact absurd hc (hr.2 cid)

/-- What a producer copies back: the output that a consumer has logged when it
finished the producer's own submission, and that it computed from its input. -/
def CopiesOwnOutput (cipher : BlockCipher) (s s' : State n) (pid : Pid) : Prop :=
  ∃ ticket vjob input out, s.submitted[ticket]? = some ⟨pid, vjob, input⟩ ∧
    (ticket, out) ∈ s.finished ∧ Computes cipher vjob input out ∧
    s'.written = s.written ++ [⟨pid, vjob.outputGpa, out⟩]

/-- The queue does what it is for, in the state `s` that a run has reached. -/
structure QueueCorrect (cipher : BlockCipher) (acts : List (Action n)) (s : State n) : Prop where
  /-- `num`, `head` and `tail` describe one chain of jobs, and the jobs that were
  dequeued and those in the chain are the submitted ones, in their order. -/
  queue : ∃ l, QueueOk s l
  /-- `head` and `tail` point to something exactly when `num` is positive. -/
  ends : (0 < s.num ↔ s.head ≠ none) ∧ (0 < s.num ↔ s.tail ≠ none)
  copies : ∀ pid ok s', s.step cipher (.writeBack pid ok) = some s' →
    CopiesOwnOutput cipher s s' pid
  /-- The consumers make a bounded number of steps for each submission. -/
  bounded : acts.countP Action.byConsumer ≤ 2 * (4 * n + 1) * s.submitted.length
  /-- When no consumer can make a step, every submitted job was dequeued. -/
  drained : 0 < n → (∀ a : Action n, a.byConsumer = true → a.Uninterrupted →
    s.step cipher a = none) → s.dequeued = List.range s.submitted.length

lemma Inv.ends (h : Inv cipher s l) :
    (0 < s.num ↔ s.head ≠ none) ∧ (0 < s.num ↔ s.tail ≠ none) := by
  rw [h.queue.num, h.queue.chain.head, h.queue.tail]
  cases l with
  | nil => simp
  | cons a l =>
    simp only [length_cons, head?_cons, ne_eq, reduceCtorEq, not_false_eq_true, iff_true,
      getLast?_eq_none_iff]
    omega

lemma Inv.copies {pid : Pid} {ok : Bool} (h : Inv cipher s l)
    (hstep : s.step cipher (.writeBack pid ok) = some s') : CopiesOwnOutput cipher s s' pid := by
  cases hc : s.producers pid with
  | woken c =>
    simp only [State.step, hc, Option.some.injEq] at hstep
    have hok := h.producerOk pid
    rw [hc] at hok
    obtain ⟨job, _, hsub, hfinished⟩ := hok
    exact ⟨job.ticket, c.vjob, c.input, bufAt s.bufs c.obuf, hsub, hfinished.logged,
      hfinished.computes, by rw [← hstep]; rfl⟩
  | _ => simp [State.step, hc] at hstep

lemma queueCorrect_of_run {acts : List (Action n)} {s : State n}
    (hacts : ∀ a ∈ acts, a.Uninterrupted)
    (hrun : (State.initial n).run cipher acts = some s) : QueueCorrect cipher acts s := by
  obtain ⟨l, h⟩ := (Inv.initial cipher n).run (runCalm_of_uninterrupted hacts _) hrun
  have hr : Running (State.initial n) := ⟨rfl, fun _ => by simp [State.initial]⟩
  obtain ⟨hrs, hspends⟩ := run_spends hr hacts hrun
  have hrank0 : (State.initial n).rank = 0 := Finset.sum_eq_zero fun _ _ => rfl
  have hlength : s.dequeued.length + l.length = s.submitted.length := by
    have hlen := congrArg List.length h.queue.order
    rwa [length_append, length_map, length_range] at hlen
  refine ⟨⟨l, h.queue⟩, h.ends, fun pid ok s' => h.copies, ?_, fun hn hrest => ?_⟩
  · have hle : s.dequeued.length + s.submitted.length ≤ 2 * s.submitted.length := by omega
    calc acts.countP Action.byConsumer
        ≤ (4 * n + 1) * (s.dequeued.length + s.submitted.length) := by
          unfold Spends at hspends
          rw [hrank0, zero_add] at hspends
          exact le_trans (le_trans (Nat.le_add_right _ _) (Nat.le_add_right _ _)) hspends
      _ ≤ (4 * n + 1) * (2 * s.submitted.length) := Nat.mul_le_mul_left _ hle
      _ = 2 * (4 * n + 1) * s.submitted.length := by rw [← mul_assoc, mul_comm _ 2]
  · -- a queue with jobs in it would give the first consumer a step
    have hl : l = [] := by
      by_contra hl
      obtain ⟨a, hby, ha, hsome⟩ := exists_consumerStep h hrs hl ⟨0, hn⟩
      exact hsome (hrest a hby ha)
    have horder := h.queue.order
    rwa [hl, map_nil, append_nil] at horder

/-! ## What is written behind a buffer -/

/-- An action, the header that a producer then copies into its `vm_job`, and the buffer
that lies behind what is written, if there is one. -/
structure HeapAction (n : Nat) where
  act : Action n
  header : List Byte
  behind : Option Nat

/-- The bytes of the object that `kmalloc` returns, as far as this matters: it has objects
of 8 bytes, and all larger ones have room for whole blocks. -/
def objectSize (size : Nat) : Nat := if size ≤ 8 then 8 else aesBlockSize * blocks size

section
variable (cipher : BlockCipher) (s : State n)

/-- What an action writes behind its object: the copy of the header, whose length is the
guest's, and the block loop. -/
def State.spilled (h : HeapAction n) : List Byte :=
  match h.act with
  | .prepare _ _ => h.header.drop (objectSize sizeofVmJob)
  | .compute cid beyond fuel =>
      match (s.consumers cid).held.bind s.jobs with
      | none => []
      | some job =>
          ((processJob cipher job.operation job.len (region (bufAt s.bufs job.input) beyond)
            (fun _ => 0#8) fuel).map fun t =>
              (t.writes.filter (objectSize job.len.toNat ≤ ·)).map t.dst).getD []
  | _ => []

def overwrite (bufs : Nat → Option (List Byte)) (bytes : List Byte) :
    Option Nat → Nat → Option (List Byte)
  | none => bufs
  | some a => update bufs a ((bufs a).map fun old => bytes.take old.length ++ old.drop bytes.length)

def State.heapStep (h : HeapAction n) : Option (State n) :=
  (s.step cipher h.act).map fun s' =>
    { s' with bufs := overwrite s'.bufs (s.spilled cipher h) h.behind }

def State.heapRun (s : State n) : List (HeapAction n) → Option (State n)
  | [] => some s
  | h :: hs => (s.heapStep cipher h).bind fun s => s.heapRun hs

/-- A header is no longer than a `vm_job`, and a job that is run has whole blocks. -/
def HeapAction.Fits (h : HeapAction n) : Prop :=
  match h.act with
  | .prepare _ _ => h.header.length ≤ sizeofVmJob
  | .compute cid _ _ => ∀ job, (s.consumers cid).held.bind s.jobs = some job →
      aesBlockSize ∣ job.len.toNat
  | _ => True

def RunFits (s : State n) : List (HeapAction n) → Prop
  | [] => True
  | h :: hs => h.Fits s ∧ ∀ s', s.heapStep cipher h = some s' → RunFits s' hs
end

lemma overwrite_nil (bufs : Nat → Option (List Byte)) (behind : Option Nat) :
    overwrite bufs [] behind = bufs := by
  cases behind with
  | none => rfl
  | some a => simp [overwrite]

lemma processJob_writes {operation len : BitVec 32} {input output : Nat → Byte} {fuel : Nat}
    {t : CryptState} (hlen : len.toNat ≤ kmallocMaxSize)
    (h : processJob cipher operation len input output fuel = some t) :
    ∀ off ∈ t.writes, off < aesBlockSize * blocks len.toNat := by
  have hloop : ∀ one, cryptLoop one input output len fuel = some t →
      ∀ off ∈ t.writes, off < aesBlockSize * blocks len.toNat := by
    intro one hone
    obtain ⟨hint, hsmall⟩ := len_bounds hlen
    have hends := cryptLoop_ends one input output hint hsmall (lt_succ_self _)
    obtain rfl := WhileLoop.Ends.unique ⟨_, hone⟩ ⟨_, hends⟩
    rw [cryptStep_iterate]
    exact fun off hoff => List.mem_range.mp hoff
  unfold processJob at h
  split at h
  · exact hloop _ h
  split at h
  · exact hloop _ h
  · cases h
    exact nofun

section
variable {h : HeapAction n} {hs : List (HeapAction n)}

lemma HeapAction.Fits.spilled_eq (hinv : Inv cipher s l) (hfits : h.Fits s) :
    s.spilled cipher h = [] := by
  obtain ⟨act, header, behind⟩ := h
  cases act with
  | prepare pid p => exact drop_eq_nil_of_le (le_trans hfits (by decide))
  | compute cid beyond fuel =>
    cases hjob : (s.consumers cid).held.bind s.jobs with
    | none => simp only [State.spilled, hjob]
    | some job =>
      obtain ⟨nj, hheld, hstored⟩ := Option.bind_eq_some_iff.mp hjob
      obtain ⟨pid, c, job', _, rfl, hcall, _⟩ := hinv.owner_of_held hheld
      obtain rfl := Option.some.inj (hcall.stored.symm.trans hstored)
      have hblocks : aesBlockSize ∣ job'.len.toNat := hfits job' hjob
      simp only [State.spilled, hjob]
      cases hrun : processJob cipher job'.operation job'.len
          (region (bufAt s.bufs job'.input) beyond) (fun _ => 0#8) fuel with
      | none => rfl
      | some t =>
        rw [Option.map_some, Option.getD_some, map_eq_nil_iff, filter_eq_nil_iff]
        intro off hoff
        have hlt := processJob_writes hcall.len_le hrun off hoff
        unfold objectSize blocks aesBlockSize at *
        rw [decide_eq_true_eq]
        split <;> omega
  | _ => rfl

lemma heapRun_eq (hinv : Inv cipher s l) (hacts : ∀ h ∈ hs, h.act.Uninterrupted)
    (hfits : RunFits cipher s hs) : s.heapRun cipher hs = s.run cipher (hs.map HeapAction.act) := by
  induction hs generalizing s l with
  | nil => rfl
  | cons h hs ih =>
    have hstep : s.heapStep cipher h = s.step cipher h.act := by
      simp [State.heapStep, hfits.1.spilled_eq hinv, overwrite_nil]
    rw [State.heapRun, List.map_cons, State.run, hstep]
    cases hnext : s.step cipher h.act with
    | none => rfl
    | some s' =>
      obtain ⟨l', hinv'⟩ := hinv.step ((hacts h mem_cons_self).calm s) hnext
      exact ih hinv' (fun h' hh' => hacts h' (mem_cons_of_mem h hh'))
        (hfits.2 s' (hstep.trans hnext))
end

/-- Every state that any number of producers and consumers reach, by any
interleaving of their steps in which no wait is interrupted and the pool is not
reclaimed, has a queue in order, if no header is too long and all jobs are of whole
blocks. -/
theorem crypto_queue_fifo {acts : List (HeapAction n)} {s : State n}
    (hacts : ∀ h ∈ acts, h.act.Uninterrupted) (hfits : RunFits cipher (State.initial n) acts)
    (hrun : (State.initial n).heapRun cipher acts = some s) :
    QueueCorrect cipher (acts.map HeapAction.act) s := by
  rw [heapRun_eq (Inv.initial cipher n) hacts hfits] at hrun
  exact queueCorrect_of_run (forall_mem_map.mpr hacts) hrun

def exPid : Pid := ⟨0, by decide⟩

def exJob : Prepare :=
  .ready ⟨0x1000#64, 0x2000#64, 16#32, kvmEncryption⟩ 0 1 0 (replicate 16 0x41#8)

def exRun : List (Action 1) :=
  [.prepare exPid exJob, .enqueue exPid, .poll 0 false, .dequeue 0, .compute 0 (fun _ => 0#8) 2,
    .finish 0, .wake exPid false, .writeBack exPid true, .loop 0, .cleanup exPid]

/-- Nothing lies behind what the action writes. -/
def Action.alone (a : Action n) : HeapAction n := ⟨a, replicate sizeofVmJob 0#8, none⟩

theorem crypto_queue_fifo_one_job : ∃ s, (State.initial 1).heapRun ⟨id, id⟩
      (exRun.map Action.alone) = some s ∧ s.written.length = 1 ∧
    QueueCorrect ⟨id, id⟩ ((exRun.map Action.alone).map HeapAction.act) s := by
  refine ⟨_, rfl, rfl,
    crypto_queue_fifo (by simp [exRun, Action.alone, Action.Uninterrupted]) ?_ rfl⟩
  refine ⟨length_replicate.le, ?_⟩
  rintro _ ⟨⟩
  iterate 3
    refine ⟨trivial, ?_⟩
    rintro _ ⟨⟩
  refine ⟨?_, ?_⟩
  · rintro _ ⟨⟩
    decide
  rintro _ ⟨⟩
  iterate 5
    refine ⟨trivial, ?_⟩
    rintro _ ⟨⟩
  trivial

def exPid' : Pid := ⟨7, by decide⟩

def exHalfBlock (a : Nat) (byte : Byte) : Prepare :=
  .ready ⟨0x1000#64, 0x2000#64, 8#32, kvmEncryption⟩ a (a + 1) a (replicate 8 byte)

/-- Two jobs of 8 bytes. The output buffer of the second lies behind that of the first,
and the second consumer is done before the first one runs the cipher. -/
def exSpill : List (HeapAction 2) :=
  ([.prepare exPid (exHalfBlock 0 0x41#8), .prepare exPid' (exHalfBlock 2 0x42#8), .enqueue exPid,
    .enqueue exPid', .poll 0 false, .dequeue 0, .poll 1 false, .dequeue 1,
    .compute 1 (fun _ => 0#8) 2, .finish 1].map Action.alone) ++
  [⟨.compute 0 (fun _ => 0#8) 2, [], some 3⟩, (Action.wake exPid' false).alone]

/-- The second producer copies back what the first job has written behind its buffer. -/
theorem crypto_output_overwritten : (∀ h ∈ exSpill, h.act.Uninterrupted) ∧
    ∃ s, (State.initial 2).heapRun ⟨id, id⟩ exSpill = some s ∧
      ¬ QueueCorrect ⟨id, id⟩ (exSpill.map HeapAction.act) s := by
  refine ⟨by simp [exSpill, Action.alone, Action.Uninterrupted], _, rfl, fun h => ?_⟩
  obtain ⟨ticket, vjob, input, out, hsub, _, ⟨beyond, fuel, hout⟩, hwritten⟩ :=
    h.copies exPid' true _ rfl
  obtain rfl : replicate 8 0#8 = out := congrArg WriteBack.bytes (List.singleton_inj.mp hwritten)
  rcases ticket with _ | _ | ticket
  · cases hsub
  · cases hsub
    rcases fuel with _ | _ | fuel
    · cases hout
    · cases hout
    · have hfirst : (0x42#8 : Byte) = 0#8 :=
        Option.some.inj (congrArg List.head? (Option.some.inj hout))
      exact absurd hfirst (by decide)
  · cases hsub

end QemuVmi.KvmCrypto
