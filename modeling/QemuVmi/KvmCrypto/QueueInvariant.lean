import QemuVmi.KvmCrypto.Queue

/-!
# The invariant of the crypto queue

What holds in every state of a run in which no producer's wait is interrupted and
the pool is reclaimed only with an empty queue. Every job has one owner, the
producer that allocated it, and is in one place: not yet linked, in the queue, in
the hands of one consumer, or finished.

1. `ProducerOk.frame`: what a step leaves alone stays as it was for a producer.
2. `Inv.step`: every calm step keeps the invariant.
3. `Inv.run`: so it holds in every state of a calm run.
-/

namespace QemuVmi.KvmCrypto

open Function LinkedChain List Option

variable {n : Nat} {cipher : BlockCipher}

/-! ## The invariant -/

def Producer.owns : Producer → List Ptr
  | .idle => []
  | .prepared c => c.ptrs
  | .waiting c => c.ptrs
  | .woken c => c.ptrs
  | .cleaning rest _ => rest

/-- Some producer waits for the job at `a`. -/
def Awaited (producers : Pid → Producer) (a : Nat) : Prop :=
  ∃ pid c, producers pid = .waiting c ∧ c.j = a

/-- The job is neither in the queue `l` nor in the hands of a consumer. -/
def Unlinked (s : State n) (l : List Nat) (a : Nat) : Prop :=
  a ∉ l ∧ ∀ cid, (s.consumers cid).held ≠ some a

/-- The cipher makes `out` of the input of a submission. -/
def Computes (cipher : BlockCipher) (vjob : VmJob) (input out : List Byte) : Prop :=
  ∃ beyond fuel, runJob cipher vjob.operation vjob.len input (replicate input.length 0#8)
    beyond fuel = some out

structure CallOk (s : State n) (c : Call) (job : CryptoJob) : Prop where
  stored : s.jobs c.j = some job
  input : job.input = c.ibuf
  output : job.output = c.obuf
  len : job.len = c.vjob.len
  operation : job.operation = c.vjob.operation
  length : c.vjob.len.toNat = c.input.length
  small : c.input.length ≤ kmallocMaxSize
  ibuf : bufAt s.bufs c.ibuf = c.input

def Cleared (s : State n) (c : Call) : Prop :=
  bufAt s.bufs c.obuf = replicate c.input.length 0#8

inductive Pending (cipher : BlockCipher) (s : State n) (l : List Nat) (c : Call) : Prop
  | queued : c.j ∈ l → (∀ cid, (s.consumers cid).held ≠ some c.j) → Cleared s c →
      Pending cipher s l c
  | processing (cid : Fin n) : c.j ∉ l → s.consumers cid = .processing c.j → Cleared s c →
      Pending cipher s l c
  | computed (cid : Fin n) : c.j ∉ l → s.consumers cid = .computed c.j →
      Computes cipher c.vjob c.input (bufAt s.bufs c.obuf) → Pending cipher s l c

structure Finished (cipher : BlockCipher) (s : State n) (l : List Nat) (c : Call)
    (job : CryptoJob) : Prop where
  status : job.status = 1
  unlinked : Unlinked s l c.j
  logged : (job.ticket, bufAt s.bufs c.obuf) ∈ s.finished
  computes : Computes cipher c.vjob c.input (bufAt s.bufs c.obuf)

def ProducerOk (cipher : BlockCipher) (s : State n) (l : List Nat) (pid : Pid) : Producer → Prop
  | .idle => True
  | .prepared c => ∃ job, CallOk s c job ∧ job.status = 0 ∧ s.link c.j = none ∧
      Unlinked s l c.j ∧ Cleared s c
  | .waiting c => ∃ job, CallOk s c job ∧ s.submitted[job.ticket]? = some ⟨pid, c.vjob, c.input⟩ ∧
      (job.status = 0 ∧ Pending cipher s l c ∨ Finished cipher s l c job)
  | .woken c => ∃ job, CallOk s c job ∧ s.submitted[job.ticket]? = some ⟨pid, c.vjob, c.input⟩ ∧
      Finished cipher s l c job
  | .cleaning rest _ => ∀ a, .job a ∈ rest → Unlinked s l a

/-- `l` is the queue: its links, its ends and its length are those of the shared
state, and the tickets of the jobs are dealt out in order. -/
structure QueueOk (s : State n) (l : List Nat) : Prop where
  chain : IsChain s.link s.head l
  nodup : l.Nodup
  num : s.num = l.length
  tail : s.tail = l.getLast?
  order : s.dequeued ++ l.map s.ticketOf = range s.submitted.length

structure OwnOk (s : State n) : Prop where
  alloc : ∀ pid p, p ∈ (s.producers pid).owns → s.Allocated p
  nodup : ∀ pid, (s.producers pid).owns.Nodup
  disjoint : ∀ pid pid' p, p ∈ (s.producers pid).owns → p ∈ (s.producers pid').owns → pid = pid'

/-- The jobs in the queue and in the hands of the consumers have a waiting
producer, and no two consumers have the same. -/
structure Places (s : State n) (l : List Nat) : Prop where
  queued : ∀ a ∈ l, Awaited s.producers a
  held : ∀ cid a, (s.consumers cid).held = some a → Awaited s.producers a
  inj : ∀ cid cid' a, (s.consumers cid).held = some a → (s.consumers cid').held = some a →
    cid = cid'

/-- The invariant: `l` is the queue. -/
structure Inv (cipher : BlockCipher) (s : State n) (l : List Nat) : Prop where
  queue : QueueOk s l
  own : OwnOk s
  places : Places s l
  producerOk : ∀ pid, ProducerOk cipher s l pid (s.producers pid)

lemma Inv.initial (cipher : BlockCipher) (n : Nat) : Inv cipher (State.initial n) [] where
  queue := ⟨rfl, nodup_nil, rfl, rfl, rfl⟩
  own := ⟨fun _ _ h => (nomatch h), fun _ => nodup_nil, fun _ _ _ h => (nomatch h)⟩
  places := ⟨fun _ h => (nomatch h), fun _ _ h => (nomatch h), fun _ _ _ h => (nomatch h)⟩
  producerOk := fun _ => trivial

/-! ## Pointers -/

variable {a : Nat} {bufs : Nat → Option (List Byte)} {p : Option Nat} {c : Call}

@[simp] lemma job_mem_ptrs : Ptr.job a ∈ c.ptrs ↔ a = c.j := by simp [Call.ptrs]

@[simp] lemma buf_mem_ptrs : Ptr.buf a ∈ c.ptrs ↔ c.ibuf = some a ∨ c.obuf = some a := by
  simp [Call.ptrs]

lemma ibuf_ne_obuf (h : c.ptrs.Nodup) (hi : c.ibuf = some a) : c.obuf ≠ some a := by
  intro ho
  simp [Call.ptrs, hi, ho] at h

lemma bufAt_congr {bufs' : Nat → Option (List Byte)} (h : ∀ a, p = some a → bufs' a = bufs a) :
    bufAt bufs' p = bufAt bufs p := by
  cases p with
  | none => rfl
  | some a => simp only [bufAt, h a rfl]

lemma bufAt_setBuf {bytes : List Byte} (h : p = none → bytes = []) :
    bufAt (setBuf bufs p bytes) p = bytes := by
  cases p with
  | none => exact (h rfl).symm
  | some a => simp only [bufAt, setBuf, update_self, getD_some]

lemma setBuf_of_ne {bytes : List Byte} (h : p ≠ some a) : setBuf bufs p bytes a = bufs a := by
  cases p with
  | none => rfl
  | some b => exact update_of_ne (fun hab : a = b => h (congrArg some hab.symm)) _ _

/-! ## Frame -/

/-- The step from `s` to `s'` leaves the pointers `ps` alone: the same memory, the
same place in the queue and the same consumers. -/
structure Frame (s s' : State n) (l l' : List Nat) (ps : List Ptr) : Prop where
  jobs : ∀ a, .job a ∈ ps → s'.jobs a = s.jobs a
  bufs : ∀ a, .buf a ∈ ps → s'.bufs a = s.bufs a
  link : ∀ a, .job a ∈ ps → a ∉ l → s'.link a = s.link a
  mem : ∀ a, .job a ∈ ps → (a ∈ l' ↔ a ∈ l)
  consumers : ∀ a, .job a ∈ ps → ∀ cid,
    (s.consumers cid).held = some a ∨ (s'.consumers cid).held = some a →
    s'.consumers cid = s.consumers cid
  submitted : s.submitted <+: s'.submitted
  finished : s.finished ⊆ s'.finished

variable {a j x fuel : Nat} {p q : Ptr} {pid : Pid} {ph : Producer}

section
variable {s s' : State n} {l l' : List Nat} {c : Call} {job : CryptoJob} {ps : List Ptr}

lemma Frame.held (hf : Frame s s' l l' ps) (ha : .job a ∈ ps)
    (h : ∀ cid, (s.consumers cid).held ≠ some a) (cid : Fin n) :
    (s'.consumers cid).held ≠ some a := by
  intro hheld
  exact h cid (hf.consumers a ha cid (.inr hheld) ▸ hheld)

lemma Frame.unlinked (hf : Frame s s' l l' ps) (ha : .job a ∈ ps) (h : Unlinked s l a) :
    Unlinked s' l' a :=
  ⟨fun hmem => h.1 ((hf.mem a ha).mp hmem), hf.held ha h.2⟩

lemma Frame.allocated (hf : Frame s s' l l' ps) (hp : p ∈ ps) (h : s.Allocated p) :
    s'.Allocated p := by
  cases p with
  | job a => rwa [State.Allocated, hf.jobs a hp]
  | buf a => rwa [State.Allocated, hf.bufs a hp]

lemma Frame.of_eq (hmemory : s'.jobs = s.jobs ∧ s'.bufs = s.bufs ∧ s'.link = s.link)
    (hrest : s'.consumers = s.consumers ∧ s'.submitted = s.submitted ∧ s'.finished = s.finished) :
    Frame s s' l l ps where
  jobs a _ := congrFun hmemory.1 a
  bufs a _ := congrFun hmemory.2.1 a
  link a _ _ := congrFun hmemory.2.2 a
  mem _ _ := Iff.rfl
  consumers _ _ cid _ := congrFun hrest.1 cid
  submitted := hrest.2.1 ▸ prefix_rfl
  finished := hrest.2.2 ▸ List.Subset.refl _

section
variable (hf : Frame s s' l l' c.ptrs)
include hf

lemma Frame.callOk (h : CallOk s c job) : CallOk s' c job :=
  { h with
    stored := (hf.jobs c.j (job_mem_ptrs.mpr rfl)).trans h.stored
    ibuf := (bufAt_congr fun a ha => hf.bufs a (buf_mem_ptrs.mpr (.inl ha))).trans h.ibuf }

lemma Frame.obuf : bufAt s'.bufs c.obuf = bufAt s.bufs c.obuf :=
  bufAt_congr fun a ha => hf.bufs a (buf_mem_ptrs.mpr (.inr ha))

lemma Frame.pending (h : Pending cipher s l c) : Pending cipher s' l' c := by
  have hj : Ptr.job c.j ∈ c.ptrs := job_mem_ptrs.mpr rfl
  cases h with
  | queued hmem hheld hclear =>
    exact .queued ((hf.mem _ hj).mpr hmem) (hf.held hj hheld) (hf.obuf.trans hclear)
  | processing cid hmem hcid hclear =>
    refine .processing cid (fun h => hmem ((hf.mem _ hj).mp h)) ?_ (hf.obuf.trans hclear)
    rw [hf.consumers _ hj cid (.inl (by rw [hcid]; rfl)), hcid]
  | computed cid hmem hcid hout =>
    refine .computed cid (fun h => hmem ((hf.mem _ hj).mp h)) ?_ (hf.obuf.symm ▸ hout)
    rw [hf.consumers _ hj cid (.inl (by rw [hcid]; rfl)), hcid]

lemma Frame.finishedOk (h : Finished cipher s l c job) : Finished cipher s' l' c job where
  status := h.status
  unlinked := hf.unlinked (job_mem_ptrs.mpr rfl) h.unlinked
  logged := hf.obuf.symm ▸ hf.finished h.logged
  computes := hf.obuf.symm ▸ h.computes
end

lemma Frame.logged (hf : Frame s s' l l' ps) {t : Nat} {sub : Submission}
    (h : s.submitted[t]? = some sub) : s'.submitted[t]? = some sub := by
  obtain ⟨more, hmore⟩ := hf.submitted
  have ht : t < s.submitted.length := (List.getElem?_eq_some_iff.mp h).1
  rw [← hmore, List.getElem?_append_left ht, h]

lemma ProducerOk.frame (h : ProducerOk cipher s l pid ph)
    (hf : Frame s s' l l' ph.owns) : ProducerOk cipher s' l' pid ph := by
  cases ph with
  | idle => trivial
  | prepared c =>
    obtain ⟨job, hcall, hstatus, hlink, hunlinked, hclear⟩ := h
    have hj : Ptr.job c.j ∈ c.ptrs := job_mem_ptrs.mpr rfl
    exact ⟨job, hf.callOk hcall, hstatus, (hf.link _ hj hunlinked.1).trans hlink,
      hf.unlinked hj hunlinked, hf.obuf.trans hclear⟩
  | waiting c =>
    obtain ⟨job, hcall, hsub, hplace⟩ := h
    refine ⟨job, hf.callOk hcall, hf.logged hsub, ?_⟩
    rcases hplace with ⟨hstatus, hpending⟩ | hfinished
    · exact .inl ⟨hstatus, hf.pending hpending⟩
    · exact .inr (hf.finishedOk hfinished)
  | woken c =>
    obtain ⟨job, hcall, hsub, hfinished⟩ := h
    exact ⟨job, hf.callOk hcall, hf.logged hsub, hf.finishedOk hfinished⟩
  | cleaning rest hcRet => exact fun a ha => hf.unlinked ha (h a ha)

lemma Inv.of_frame (h : Inv cipher s l) (pid₀ : Pid) (hqueue : QueueOk s' l')
    (hplaces : Places s' l') (hproducers : ∀ pid, pid ≠ pid₀ → s'.producers pid = s.producers pid)
    (hframe : ∀ pid, pid ≠ pid₀ → Frame s s' l l' (s.producers pid).owns)
    (halloc : ∀ p ∈ (s'.producers pid₀).owns, s'.Allocated p)
    (hnodup : (s'.producers pid₀).owns.Nodup)
    (hdisjoint : ∀ pid p, pid ≠ pid₀ → p ∈ (s.producers pid).owns → p ∉ (s'.producers pid₀).owns)
    (hok : ProducerOk cipher s' l' pid₀ (s'.producers pid₀)) : Inv cipher s' l' := by
  refine ⟨hqueue, ⟨fun pid p hp => ?_, fun pid => ?_, fun pid pid' p hp hp' => ?_⟩, hplaces,
    fun pid => ?_⟩
  · by_cases hpid : pid = pid₀
    · exact halloc p (hpid ▸ hp)
    · rw [hproducers pid hpid] at hp
      exact (hframe pid hpid).allocated hp (h.own.alloc pid p hp)
  · by_cases hpid : pid = pid₀
    · exact hpid ▸ hnodup
    · exact hproducers pid hpid ▸ h.own.nodup pid
  · by_cases hpid : pid = pid₀
    · by_cases hpid' : pid' = pid₀
      · exact hpid.trans hpid'.symm
      · rw [hproducers pid' hpid'] at hp'
        exact absurd (hpid ▸ hp) (hdisjoint pid' p hpid' hp')
    · rw [hproducers pid hpid] at hp
      by_cases hpid' : pid' = pid₀
      · exact absurd (hpid' ▸ hp') (hdisjoint pid p hpid hp)
      · rw [hproducers pid' hpid'] at hp'
        exact h.own.disjoint pid pid' p hp hp'
  · by_cases hpid : pid = pid₀
    · exact hpid ▸ hok
    · rw [hproducers pid hpid]
      exact (h.producerOk pid).frame (hframe pid hpid)
end

/-! ## Producers -/

lemma Awaited.update {producers : Pid → Producer} (h : Awaited producers a)
    (hpid : ∀ c, producers pid = .waiting c → c.j ≠ a) (ph : Producer) :
    Awaited (update producers pid ph) a := by
  obtain ⟨pid', c, hc, hj⟩ := h
  have hne : pid' ≠ pid := fun heq => hpid c (heq ▸ hc) hj
  exact ⟨pid', c, by rw [update_of_ne hne, hc], hj⟩

def SameAt (s s' : State n) : Ptr → Prop
  | .job a => s'.jobs a = s.jobs a ∧ s'.link a = s.link a
  | .buf a => s'.bufs a = s.bufs a

variable {s s' : State n}

lemma sameAt_of_eq (hjobs : s'.jobs = s.jobs) (hlink : s'.link = s.link)
    (hbufs : s'.bufs = s.bufs) (p : Ptr) : SameAt s s' p := by
  cases p with
  | job a => exact ⟨congrFun hjobs a, congrFun hlink a⟩
  | buf a => exact congrFun hbufs a

lemma SameAt.allocated (hsame : SameAt s s' p) (h : s.Allocated p) : s'.Allocated p := by
  cases p with
  | job a => rwa [State.Allocated, hsame.1]
  | buf a => rwa [State.Allocated, hsame]

variable {l : List Nat}

lemma Inv.producerStep {pid₀ : Pid} (h : Inv cipher s l)
    (hqueue : s'.head = s.head ∧ s'.tail = s.tail ∧ s'.num = s.num ∧ s'.dequeued = s.dequeued)
    (hrest : s'.consumers = s.consumers ∧ s'.submitted = s.submitted ∧ s'.finished = s.finished)
    (hproducers : s'.producers = update s.producers pid₀ ph)
    (hfree : ∀ c, s.producers pid₀ = .waiting c → Unlinked s l c.j)
    (hsame : ∀ pid p, pid ≠ pid₀ → p ∈ (s.producers pid).owns → SameAt s s' p)
    (halloc : ∀ p ∈ ph.owns, s'.Allocated p) (hnodup : ph.owns.Nodup)
    (hdisjoint : ∀ pid p, pid ≠ pid₀ → p ∈ (s.producers pid).owns → p ∉ ph.owns)
    (hok : ProducerOk cipher s' l pid₀ ph) : Inv cipher s' l := by
  obtain ⟨hhead, htail, hnum, hdequeued⟩ := hqueue
  obtain ⟨hconsumers, hsubmitted, hfinished⟩ := hrest
  -- a queued job is owned by one of the other producers
  have hqueued : ∀ a ∈ l, s'.jobs a = s.jobs a ∧ s'.link a = s.link a := by
    intro a ha
    obtain ⟨pid, c, hc, rfl⟩ := h.places.queued a ha
    have hne : pid ≠ pid₀ := fun heq => (hfree c (heq ▸ hc)).1 ha
    exact hsame pid (.job c.j) hne (by rw [hc]; exact job_mem_ptrs.mpr rfl)
  have hself : s'.producers pid₀ = ph := by rw [hproducers, update_self]
  refine h.of_frame pid₀ ⟨?_, h.queue.nodup, ?_, ?_, ?_⟩ ⟨?_, ?_, ?_⟩ ?_ ?_ ?_ ?_ ?_ ?_
  · rw [hhead]
    exact h.queue.chain.congr fun a ha => (hqueued a ha).2
  · rw [hnum, h.queue.num]
  · rw [htail, h.queue.tail]
  · rw [hdequeued, hsubmitted, ← h.queue.order]
    refine congrArg _ (map_congr_left fun a ha => ?_)
    rw [State.ticketOf, State.ticketOf, (hqueued a ha).1]
  · intro a ha
    rw [hproducers]
    exact (h.places.queued a ha).update (fun c hc hj => (hfree c hc).1 (hj ▸ ha)) ph
  · intro cid a ha
    rw [hconsumers] at ha
    rw [hproducers]
    exact (h.places.held cid a ha).update (fun c hc hj => (hfree c hc).2 cid (hj ▸ ha)) ph
  · rw [hconsumers]
    exact h.places.inj
  · intro pid hpid
    rw [hproducers, update_of_ne hpid]
  · intro pid hpid
    exact ⟨fun a ha => (hsame pid _ hpid ha).1, fun a ha => hsame pid _ hpid ha,
      fun a ha _ => (hsame pid _ hpid ha).2, fun _ _ => Iff.rfl,
      fun _ _ cid _ => congrFun hconsumers cid, hsubmitted ▸ prefix_rfl,
      hfinished ▸ List.Subset.refl _⟩
  · rwa [hself]
  · rwa [hself]
  · rwa [hself]
  · rwa [hself]

section
variable {s s' : State n} {l : List Nat} {pid : Pid} {c : Call} {a len b : Nat} {input : List Byte}

section
variable (h : Inv cipher s l)
include h

lemma Inv.allocated_of_awaited (ha : Awaited s.producers a) : s.jobs a ≠ none := by
  obtain ⟨pid, c, hc, rfl⟩ := ha
  exact h.own.alloc pid (.job c.j) (by rw [hc]; exact job_mem_ptrs.mpr rfl)

lemma Inv.unlinked_of_free (ha : s.jobs a = none) : Unlinked s l a :=
  ⟨fun hmem => h.allocated_of_awaited (h.places.queued a hmem) ha,
    fun cid hheld => h.allocated_of_awaited (h.places.held cid a hheld) ha⟩

lemma Inv.obuf_ne_none (hc : s.producers pid = .waiting c) (a : Nat)
    (ha : c.obuf = some a) : s.bufs a ≠ none :=
  h.own.alloc pid (.buf a) (by rw [hc]; exact buf_mem_ptrs.mpr (.inr ha))

lemma Inv.finished_of_status (hc : s.producers pid = .waiting c)
    (hstatus : s.statusOf c.j = some 1) : ProducerOk cipher s l pid (.woken c) := by
  have hok := h.producerOk pid
  rw [hc] at hok
  obtain ⟨job, hcall, hsub, hplace⟩ := hok
  rw [State.statusOf, hcall.stored, map_some, Option.some.injEq] at hstatus
  rcases hplace with ⟨hzero, _⟩ | hfinished
  · rw [hzero] at hstatus
    cases hstatus
  · exact ⟨job, hcall, hsub, hfinished⟩

lemma Inv.keepStep {written : List WriteBack} (howns : ph.owns = (s.producers pid).owns)
    (hfree : ∀ c, s.producers pid = .waiting c → Unlinked s l c.j)
    (hok : ProducerOk cipher s l pid ph) :
    Inv cipher { s with written := written, producers := update s.producers pid ph } l := by
  refine h.producerStep ⟨rfl, rfl, rfl, rfl⟩ ⟨rfl, rfl, rfl⟩ rfl hfree
    (fun _ p _ _ => sameAt_of_eq rfl rfl rfl p) ?_ ?_ ?_
    (hok.frame (.of_eq ⟨rfl, rfl, rfl⟩ ⟨rfl, rfl, rfl⟩))
  · intro p hp
    exact h.own.alloc pid p (howns ▸ hp)
  · exact howns ▸ h.own.nodup pid
  · intro pid' p hpid hp hp'
    exact hpid (h.own.disjoint pid' pid p hp (howns ▸ hp'))

lemma Inv.wake (hc : s.producers pid = .waiting c) (hstatus : s.statusOf c.j = some 1) :
    Inv cipher { s with producers := update s.producers pid (.woken c) } l := by
  have hok := h.finished_of_status hc hstatus
  refine h.keepStep (by rw [hc]; rfl) ?_ hok
  intro c' hc'
  obtain ⟨job, _, _, hfinished⟩ := hok
  obtain rfl := Producer.waiting.inj (hc.symm.trans hc')
  exact hfinished.unlinked

lemma Inv.writeBack (hc : s.producers pid = .woken c) (ok : Bool) :
    Inv cipher (s.writeBack pid c ok) l := by
  have hwoken := h.producerOk pid
  rw [hc] at hwoken
  obtain ⟨job, _, _, hfinished⟩ := hwoken
  have hok : ProducerOk cipher s l pid (.cleaning c.ptrs (if ok then 0 else 1)) :=
    fun a ha => job_mem_ptrs.mp ha ▸ hfinished.unlinked
  refine h.keepStep (by rw [hc]; rfl) (fun c' hc' => ?_) hok
  cases hc.symm.trans hc'
end

lemma sameAt_kfree (h : q ≠ p) : SameAt s (s.kfree p) q := by
  cases p with
  | job a =>
    cases q with
    | job b => exact ⟨update_of_ne (fun hba => h (congrArg Ptr.job hba)) _ _, rfl⟩
    | buf b => exact rfl
  | buf a =>
    cases q with
    | job b => exact ⟨rfl, rfl⟩
    | buf b => exact update_of_ne (fun hba => h (congrArg Ptr.buf hba)) _ _

lemma kfree_queue (s : State n) (p : Ptr) :
    (s.kfree p).head = s.head ∧ (s.kfree p).tail = s.tail ∧ (s.kfree p).num = s.num ∧
      (s.kfree p).dequeued = s.dequeued := by
  cases p <;> exact ⟨rfl, rfl, rfl, rfl⟩

lemma kfree_rest (s : State n) (p : Ptr) :
    (s.kfree p).consumers = s.consumers ∧ (s.kfree p).submitted = s.submitted ∧
      (s.kfree p).finished = s.finished := by
  cases p <;> exact ⟨rfl, rfl, rfl⟩

lemma Inv.cleanup {rest : List Ptr} {hcRet : Nat} (h : Inv cipher s l)
    (hc : s.producers pid = .cleaning rest hcRet) : Inv cipher (s.cleanup pid rest hcRet) l := by
  have hok := h.producerOk pid
  have hnodup := h.own.nodup pid
  rw [hc] at hok hnodup
  have hother : ∀ pid' p, pid' ≠ pid → p ∈ (s.producers pid').owns → p ∉ rest :=
    fun pid' p hpid hp hp' => hpid (h.own.disjoint pid' pid p hp (by rwa [hc]))
  have hnotWaiting : ∀ c, s.producers pid = .waiting c → Unlinked s l c.j := fun c hc' => by
    cases hc.symm.trans hc'
  cases rest with
  | nil => exact h.keepStep (by rw [hc]; rfl) hnotWaiting trivial
  | cons q rest =>
    have hq : q ∉ rest := (nodup_cons.mp hnodup).1
    have hsame : ∀ p, p ≠ q → SameAt s (s.cleanup pid (q :: rest) hcRet) p :=
      fun p hp => by cases p <;> exact sameAt_kfree hp
    refine h.producerStep (kfree_queue s q) (kfree_rest s q) rfl hnotWaiting ?_ ?_
      (nodup_cons.mp hnodup).2 ?_ ?_
    · intro pid' p hpid hp
      exact hsame p fun hpq => hother pid' p hpid hp (hpq ▸ mem_cons_self)
    · intro p hp
      have hold := h.own.alloc pid p (by rw [hc]; exact mem_cons_of_mem q hp)
      exact (hsame p fun hpq => hq (hpq ▸ hp)).allocated hold
    · exact fun pid' p hpid hp hp' => hother pid' p hpid hp (mem_cons_of_mem q hp')
    · intro a ha
      have hunlinked := hok a (mem_cons_of_mem q ha)
      cases q <;> exact hunlinked

/-! ### Allocation -/

lemma bufPtr_eq_some : bufPtr len a = some b ↔ len ≠ 0 ∧ a = b := by
  unfold bufPtr
  split
  · next hlen => simp [hlen]
  · next hlen => simp [hlen]

lemma bufPtr_eq_none (h : bufPtr len a = none) : len = 0 := by
  by_contra hlen
  rw [bufPtr, if_neg hlen] at h
  cases h

lemma canAlloc_iff : s.canAlloc len a b = true ↔
    len ≤ kmallocMaxSize ∧ s.bufs a = none ∧ s.bufs b = none ∧ a ≠ b := by
  simp [State.canAlloc, and_assoc]

lemma allocBufs_of_ne (ha : x ≠ a) (hb : x ≠ b) : s.allocBufs a b input x = s.bufs x := by
  rw [State.allocBufs, setBuf_of_ne, setBuf_of_ne]
  · exact fun h => ha (bufPtr_eq_some.mp h).2.symm
  · exact fun h => hb (bufPtr_eq_some.mp h).2.symm

lemma bufAt_allocBufs_input (hab : a ≠ b) :
    bufAt (s.allocBufs a b input) (bufPtr input.length a) = input := by
  rw [State.allocBufs, bufAt_congr fun x hx => setBuf_of_ne ?_, bufAt_setBuf]
  · exact fun h => length_eq_zero_iff.mp (bufPtr_eq_none h)
  · intro hb
    exact hab ((bufPtr_eq_some.mp hx).2.trans (bufPtr_eq_some.mp hb).2.symm)

lemma bufAt_allocBufs_output :
    bufAt (s.allocBufs a b input) (bufPtr input.length b) = replicate input.length 0#8 := by
  rw [State.allocBufs, bufAt_setBuf]
  intro h
  rw [bufPtr_eq_none h]
  rfl

lemma allocBufs_ne_none (hab : a ≠ b)
    (hx : bufPtr input.length a = some x ∨ bufPtr input.length b = some x) :
    s.allocBufs a b input x ≠ none := by
  rcases hx with hx | hx
  · have hb : bufPtr input.length b ≠ some x := fun hb =>
      hab ((bufPtr_eq_some.mp hx).2.trans (bufPtr_eq_some.mp hb).2.symm)
    rw [State.allocBufs, setBuf_of_ne hb, hx]
    simp [setBuf]
  · rw [State.allocBufs, hx]
    simp [setBuf]

section
variable (h : Inv cipher s l)
include h

lemma Inv.sameAt_alloc (ha : s.bufs a = none) (hb : s.bufs b = none)
    (hbufs : s'.bufs = s.allocBufs a b input)
    (hjobs : ∀ x, s.jobs x ≠ none → s'.jobs x = s.jobs x ∧ s'.link x = s.link x)
    (hp : p ∈ (s.producers pid).owns) : SameAt s s' p := by
  have halloc := h.own.alloc pid p hp
  cases p with
  | job x => exact hjobs x halloc
  | buf x =>
    rw [SameAt, hbufs]
    exact allocBufs_of_ne (fun hx => halloc (hx ▸ ha)) (fun hx => halloc (hx ▸ hb))

lemma Inv.prepare_inputUnreadable (hidle : s.producers pid = .idle)
    (hstep : s.prepare pid (.inputUnreadable len a b) = some s') : Inv cipher s' l := by
  simp only [State.prepare, ite_none_right_eq_some, Option.some.injEq, canAlloc_iff] at hstep
  obtain ⟨⟨_, ha, hb, hab⟩, rfl⟩ := hstep
  have hlen : (replicate len 0#8).length = len := length_replicate
  have hown : ∀ p ∈ ((bufPtr len a).map Ptr.buf).toList ++ ((bufPtr len b).map Ptr.buf).toList,
      ∃ x, p = .buf x ∧ (bufPtr len a = some x ∨ bufPtr len b = some x) := by
    intro p hp
    simp only [mem_append, mem_toList, map_eq_some_iff] at hp
    rcases hp with ⟨x, hx, rfl⟩ | ⟨x, hx, rfl⟩
    · exact ⟨x, rfl, .inl hx⟩
    · exact ⟨x, rfl, .inr hx⟩
  refine h.producerStep ⟨rfl, rfl, rfl, rfl⟩ ⟨rfl, rfl, rfl⟩ rfl ?_ ?_ ?_ ?_ ?_ ?_
  · intro c hc
    cases hidle.symm.trans hc
  · intro pid' p _ hp
    refine h.sameAt_alloc ha hb rfl (fun x _ => ?_) hp
    exact ⟨rfl, rfl⟩
  · intro p hp
    obtain ⟨x, rfl, hx⟩ := hown p hp
    exact allocBufs_ne_none hab (by rwa [hlen])
  · by_cases hzero : len = 0
    · simp [Producer.owns, bufPtr, hzero]
    · simp [Producer.owns, bufPtr, hzero, hab]
  · intro pid' p _ hp hp'
    obtain ⟨x, rfl, hx⟩ := hown p hp'
    rcases hx with hx | hx
    · exact h.own.alloc pid' _ hp ((bufPtr_eq_some.mp hx).2 ▸ ha)
    · exact h.own.alloc pid' _ hp ((bufPtr_eq_some.mp hx).2 ▸ hb)
  · intro x hx
    obtain ⟨_, hbuf, _⟩ := hown _ hx
    cases hbuf

lemma Inv.prepare_ready (hidle : s.producers pid = .idle) {vjob : VmJob}
    (hstep : s.prepare pid (.ready vjob a b j input) = some s') : Inv cipher s' l := by
  simp only [State.prepare, ite_none_right_eq_some, Option.some.injEq, canAlloc_iff,
    Bool.and_eq_true, isNone_iff_eq_none, beq_iff_eq] at hstep
  obtain ⟨⟨⟨⟨hsmall, ha, hb, hab⟩, hj⟩, hlength⟩, rfl⟩ := hstep
  refine h.producerStep ⟨rfl, rfl, rfl, rfl⟩ ⟨rfl, rfl, rfl⟩ rfl ?_ ?_ ?_ ?_ ?_ ?_
  · intro c hc
    cases hidle.symm.trans hc
  · intro pid' p _ hp
    refine h.sameAt_alloc ha hb rfl (fun x hx => ?_) hp
    have hne : x ≠ j := fun hxj => hx (hxj ▸ hj)
    exact ⟨update_of_ne hne _ _, update_of_ne hne _ _⟩
  · intro p hp
    cases p with
    | job x =>
      obtain rfl := job_mem_ptrs.mp hp
      simp [State.Allocated]
    | buf x => exact allocBufs_ne_none hab (buf_mem_ptrs.mp hp)
  · cases input with
    | nil => simp [Producer.owns, Call.ptrs, bufPtr]
    | cons byte input => simp [Producer.owns, Call.ptrs, bufPtr, hab]
  · intro pid' p _ hp hp'
    cases p with
    | job x =>
      obtain rfl := job_mem_ptrs.mp hp'
      exact h.own.alloc pid' _ hp hj
    | buf x =>
      rcases buf_mem_ptrs.mp hp' with hx | hx
      · exact h.own.alloc pid' _ hp ((bufPtr_eq_some.mp hx).2 ▸ ha)
      · exact h.own.alloc pid' _ hp ((bufPtr_eq_some.mp hx).2 ▸ hb)
  · refine ⟨_, ⟨update_self _ _ _, rfl, rfl, rfl, rfl, hlength, hsmall,
      bufAt_allocBufs_input hab⟩, rfl, update_self _ _ _, h.unlinked_of_free hj,
      bufAt_allocBufs_output⟩

lemma Inv.prepare (hidle : s.producers pid = .idle) {p : Prepare}
    (hstep : s.prepare pid p = some s') : Inv cipher s' l := by
  cases p with
  | unreadable =>
    cases hstep
    refine h.keepStep (by rw [hidle]; rfl) (fun c hc => ?_) (fun _ hp => (nomatch hp))
    cases hidle.symm.trans hc
  | inputUnreadable len a b => exact h.prepare_inputUnreadable hidle hstep
  | ready vjob a b j input => exact h.prepare_ready hidle hstep
end

/-! ### The critical section -/

lemma wrapInt_of_lt {x : Int} (h0 : 0 ≤ x) (h : x < 2 ^ 31) : wrapInt x = x := by
  unfold wrapInt
  rw [Int.bmod_eq_of_le] <;> omega

def Producer.awaits : Producer → Nat
  | .waiting c => c.j
  | _ => 0

lemma Inv.length_le_card (h : Inv cipher s l) {P : Finset Pid}
    (hP : ∀ pid c, s.producers pid = .waiting c → pid ∈ P) : l.length ≤ P.card := by
  have hsub : l.toFinset ⊆ P.image fun pid => (s.producers pid).awaits := by
    intro a ha
    obtain ⟨pid, c, hc, rfl⟩ := h.places.queued a (mem_toFinset.mp ha)
    exact Finset.mem_image.mpr ⟨pid, hP pid c hc, by rw [hc]; rfl⟩
  calc l.length = l.toFinset.card := (toFinset_card_of_nodup h.queue.nodup).symm
    _ ≤ (P.image fun pid => (s.producers pid).awaits).card := Finset.card_le_card hsub
    _ ≤ P.card := Finset.card_image_le

lemma card_pid : (Finset.univ : Finset Pid).card = 2 ^ 31 - 1 := Finset.card_fin _

lemma Inv.length_lt (h : Inv cipher s l) : l.length < 2 ^ 31 := by
  have hle : l.length ≤ (Finset.univ : Finset Pid).card :=
    h.length_le_card fun pid _ _ => Finset.mem_univ pid
  rw [card_pid] at hle
  omega

lemma Inv.length_add_one_lt (h : Inv cipher s l) (hc : s.producers pid = .prepared c) :
    l.length + 1 < 2 ^ 31 := by
  have hle : l.length ≤ (Finset.univ.erase pid).card := h.length_le_card fun pid' c' hc' => by
    refine Finset.mem_erase.mpr ⟨?_, Finset.mem_univ pid'⟩
    rintro rfl
    cases hc.symm.trans hc'
  rw [Finset.card_erase_of_mem (Finset.mem_univ pid), card_pid] at hle
  omega

lemma linkJob_spec (hstep : s.linkJob j = some s') (hchain : IsChain s.link s.head l)
    (hnodup : l.Nodup) (hnum : s.num = l.length) (htail : s.tail = l.getLast?)
    (hj : s.link j = none) (hmem : j ∉ l) : ∃ head link, s' = { s with
        head := head, link := link, tail := some j, num := wrapInt (s.num + 1) } ∧
      IsChain link head (l ++ [j]) ∧ ∀ a, a ∉ l → link a = s.link a := by
  unfold State.linkJob at hstep
  by_cases hempty : s.num = 0
  · have hl : l = [] := by
      rw [hnum] at hempty
      exact length_eq_zero_iff.mp (by exact_mod_cast hempty)
    subst hl
    rw [if_pos hempty, Option.some.injEq] at hstep
    exact ⟨some j, s.link, hstep.symm, isChain_singleton hj, fun _ _ => rfl⟩
  rw [if_neg hempty, htail] at hstep
  cases hlast : l.getLast? with
  | none =>
    rw [hlast] at hstep
    cases hstep
  | some t =>
    rw [hlast] at hstep
    refine ⟨s.head, update s.link t (some j), (Option.some.inj hstep).symm,
      hchain.push hnodup hlast hj hmem, fun a ha => update_of_ne ?_ _ _⟩
    rintro rfl
    exact ha (mem_of_getLast? hlast)

lemma Inv.enqueue (h : Inv cipher s l) (hc : s.producers pid = .prepared c)
    (hstep : s.enqueue pid c = some s') : Inv cipher s' (l ++ [c.j]) := by
  have hok := h.producerOk pid
  rw [hc] at hok
  obtain ⟨job, hcall, hstatus, hlinkNone, hunlinked, hclear⟩ := hok
  simp only [State.enqueue, hcall.stored] at hstep
  obtain ⟨head, link, rfl, hchain, hlink⟩ := linkJob_spec hstep h.queue.chain h.queue.nodup
    h.queue.num h.queue.tail hlinkNone hunlinked.1
  have hlt := h.length_add_one_lt hc
  have hother : ∀ pid' a, pid' ≠ pid → Ptr.job a ∈ (s.producers pid').owns → a ≠ c.j := by
    rintro pid' a hpid ha rfl
    exact hpid (h.own.disjoint pid' pid _ ha (by rw [hc]; exact job_mem_ptrs.mpr rfl))
  have hnotWaiting : ∀ a c', s.producers pid = .waiting c' → c'.j ≠ a := fun a c' hc' => by
    cases hc.symm.trans hc'
  refine h.of_frame pid ⟨hchain, ?_, ?_, ?_, ?_⟩ ⟨?_, ?_, h.places.inj⟩ ?_ ?_ ?_ ?_ ?_ ?_
  · exact nodup_append.mpr ⟨h.queue.nodup, nodup_singleton _, fun a ha b hb hab =>
      hunlinked.1 (mem_singleton.mp hb ▸ hab ▸ ha)⟩
  · rw [length_append, length_singleton]
    change wrapInt (s.num + 1) = _
    rw [h.queue.num, wrapInt_of_lt] <;> omega
  · exact getLast?_concat.symm
  · rw [map_append, ← append_assoc, length_append, length_singleton, range_succ, ← h.queue.order]
    refine congrArg₂ _ (congrArg _ (map_congr_left fun a ha => ?_)) ?_
    · have hne : a ≠ c.j := fun hac => hunlinked.1 (hac ▸ ha)
      simp only [State.ticketOf, update_of_ne hne]
    · simp [State.ticketOf]
  · intro a ha
    rcases mem_append.mp ha with ha | ha
    · exact (h.places.queued a ha).update (hnotWaiting a) _
    · exact ⟨pid, c, update_self _ _ _, (mem_singleton.mp ha).symm⟩
  · exact fun cid a ha => (h.places.held cid a ha).update (hnotWaiting a) _
  · exact fun pid' hpid => update_of_ne hpid _ _
  · intro pid' hpid
    refine ⟨fun a ha => update_of_ne (hother pid' a hpid ha) _ _, fun _ _ => rfl,
      fun a _ hal => hlink a hal, fun a ha => ?_, fun _ _ _ _ => rfl, prefix_append _ _,
      List.Subset.refl _⟩
    rw [mem_append, mem_singleton, or_iff_left (hother pid' a hpid ha)]
  · intro p hp
    simp only [update_self] at hp
    cases p with
    | job a =>
      obtain rfl := job_mem_ptrs.mp hp
      simp [State.Allocated]
    | buf a => exact h.own.alloc pid _ (by rwa [hc])
  · have hnodup := h.own.nodup pid
    rw [hc] at hnodup
    simp only [update_self]
    exact hnodup
  · intro pid' p hpid hp hp'
    simp only [update_self] at hp'
    exact hpid (h.own.disjoint pid' pid p hp (by rwa [hc]))
  · simp only [update_self]
    refine ⟨_, { hcall with stored := update_self _ _ _ }, List.getElem?_concat_length, .inl
      ⟨hstatus, .queued (mem_append_right _ (mem_singleton_self _)) hunlinked.2 hclear⟩⟩
end

variable {beyond : Nat → Byte}

section
variable {s s' : State n} {l l' : List Nat} {cid : Fin n} {nj : Nat}

section
variable (h : Inv cipher s l)
include h

lemma Inv.of_frame_all (hqueue : QueueOk s' l') (hplaces : Places s' l')
    (hproducers : s'.producers = s.producers)
    (hframe : ∀ pid, Frame s s' l l' (s.producers pid).owns) : Inv cipher s' l' := by
  refine ⟨hqueue, ⟨?_, ?_, ?_⟩, hplaces, ?_⟩
  · rw [hproducers]
    exact fun pid p hp => (hframe pid).allocated hp (h.own.alloc pid p hp)
  · rw [hproducers]
    exact h.own.nodup
  · rw [hproducers]
    exact h.own.disjoint
  · rw [hproducers]
    exact fun pid => (h.producerOk pid).frame (hframe pid)

lemma Inv.consumerIdle {ph : Consumer}
    (hcid : (s.consumers cid).held = none) (hph : ph.held = none) :
    Inv cipher { s with consumers := update s.consumers cid ph } l := by
  have hheld : ∀ cid' a, (update s.consumers cid ph cid').held = some a →
      (s.consumers cid').held = some a := by
    intro cid' a ha
    by_cases heq : cid' = cid
    · rw [heq, update_self, hph] at ha
      cases ha
    · rwa [update_of_ne heq] at ha
  refine h.of_frame_all ⟨h.queue.chain, h.queue.nodup, h.queue.num, h.queue.tail, h.queue.order⟩
    ⟨h.places.queued, fun cid' a ha => h.places.held cid' a (hheld cid' a ha),
      fun cid₁ cid₂ a h₁ h₂ => h.places.inj cid₁ cid₂ a (hheld cid₁ a h₁) (hheld cid₂ a h₂)⟩
    rfl fun pid => ⟨fun _ _ => rfl, fun _ _ => rfl, fun _ _ _ => rfl, fun _ _ => Iff.rfl, ?_,
      prefix_rfl, List.Subset.refl _⟩
  intro a _ cid' ha
  have hne : cid' ≠ cid := by
    rintro rfl
    rcases ha with ha | ha
    · rw [hcid] at ha
      cases ha
    · exact nomatch hcid.symm.trans (hheld cid' a ha)
  exact update_of_ne hne _ _

lemma Inv.owner (ha : Awaited s.producers nj) :
    ∃ pid c job, s.producers pid = .waiting c ∧ c.j = nj ∧ CallOk s c job ∧
      s.submitted[job.ticket]? = some ⟨pid, c.vjob, c.input⟩ ∧
      (job.status = 0 ∧ Pending cipher s l c ∨ Finished cipher s l c job) := by
  obtain ⟨pid, c, hc, hj⟩ := ha
  have hok := h.producerOk pid
  rw [hc] at hok
  obtain ⟨job, hcall, hsub, hplace⟩ := hok
  exact ⟨pid, c, job, hc, hj, hcall, hsub, hplace⟩

lemma Inv.other_ne {pid' : Pid}
    (hc : s.producers pid = .waiting c) (hq : q ∈ c.ptrs) (hpid : pid' ≠ pid)
    (hp : p ∈ (s.producers pid').owns) : p ≠ q := by
  rintro rfl
  exact hpid (h.own.disjoint pid' pid p hp (by rwa [hc]))

/-- A step of the consumer that has, or takes, the job `nj`: the job of the
producer `pid`, which waits for it. -/
lemma Inv.consumerStep {ph : Consumer}
    (hc : s.producers pid = .waiting c) (hqueue : QueueOk s' l')
    (hproducers : s'.producers = s.producers) (hconsumers : s'.consumers = update s.consumers cid ph)
    (hbefore : (s.consumers cid).held = none ∨ (s.consumers cid).held = some c.j)
    (hafter : ph.held = none ∨ ph.held = some c.j)
    (halone : ∀ cid', cid' ≠ cid → (s.consumers cid').held ≠ some c.j)
    (hmem : ∀ a, a ≠ c.j → (a ∈ l' ↔ a ∈ l))
    (hjobs : ∀ a, a ≠ c.j → s'.jobs a = s.jobs a) (hjob : s'.jobs c.j ≠ none)
    (hlink : ∀ a, a ≠ c.j → s'.link a = s.link a)
    (hbufs : ∀ a, c.obuf ≠ some a → s'.bufs a = s.bufs a)
    (hbuf : ∀ a, c.obuf = some a → s'.bufs a ≠ none)
    (hlog : s'.submitted = s.submitted ∧ s.finished ⊆ s'.finished)
    (hok : ProducerOk cipher s' l' pid (.waiting c)) : Inv cipher s' l' := by
  have hawaited : Awaited s.producers c.j := ⟨pid, c, hc, rfl⟩
  have hself : s'.producers pid = .waiting c := by rw [hproducers, hc]
  have hne : ∀ {cid'}, cid' ≠ cid → s'.consumers cid' = s.consumers cid' := fun hcid => by
    rw [hconsumers, update_of_ne hcid]
  have hheld : ∀ cid' a, (s'.consumers cid').held = some a →
      (cid' = cid ∧ a = c.j) ∨ (cid' ≠ cid ∧ (s.consumers cid').held = some a) := by
    intro cid' a ha
    by_cases hcid : cid' = cid
    · rw [hcid, hconsumers, update_self] at ha
      rcases hafter with hnone | hsome
      · exact nomatch hnone.symm.trans ha
      · exact .inl ⟨hcid, (Option.some.inj (hsome.symm.trans ha)).symm⟩
    · exact .inr ⟨hcid, hne hcid ▸ ha⟩
  refine h.of_frame pid hqueue ⟨?_, ?_, ?_⟩ (fun pid' _ => by rw [hproducers]) ?_ ?_ ?_ ?_ ?_
  · intro a ha
    rw [hproducers]
    by_cases haj : a = c.j
    · exact haj ▸ hawaited
    · exact h.places.queued a ((hmem a haj).mp ha)
  · intro cid' a ha
    rw [hproducers]
    rcases hheld cid' a ha with ⟨_, rfl⟩ | ⟨_, hold⟩
    · exact hawaited
    · exact h.places.held cid' a hold
  · intro cid₁ cid₂ a h₁ h₂
    rcases hheld cid₁ a h₁ with ⟨rfl, rfl⟩ | ⟨hne₁, hold₁⟩
    · rcases hheld cid₂ _ h₂ with ⟨rfl, _⟩ | ⟨hne₂, hold₂⟩
      · rfl
      · exact absurd hold₂ (halone cid₂ hne₂)
    · rcases hheld cid₂ a h₂ with ⟨rfl, rfl⟩ | ⟨_, hold₂⟩
      · exact absurd hold₁ (halone cid₁ hne₁)
      · exact h.places.inj cid₁ cid₂ a hold₁ hold₂
  · intro pid' hpid
    have hj : ∀ a, Ptr.job a ∈ (s.producers pid').owns → a ≠ c.j := fun a ha haj =>
      h.other_ne hc (job_mem_ptrs.mpr rfl) hpid ha (congrArg Ptr.job haj)
    have hb : ∀ a, Ptr.buf a ∈ (s.producers pid').owns → c.obuf ≠ some a := fun a ha hobuf =>
      h.other_ne hc (buf_mem_ptrs.mpr (.inr hobuf)) hpid ha rfl
    refine ⟨fun a ha => hjobs a (hj a ha), fun a ha => hbufs a (hb a ha),
      fun a ha _ => hlink a (hj a ha), fun a ha => hmem a (hj a ha), ?_,
      hlog.1 ▸ prefix_rfl, hlog.2⟩
    intro a ha cid' hcid
    by_cases heq : cid' = cid
    · subst heq
      rcases hcid with hcid | hcid
      · rcases hbefore with hnone | hsome
        · exact nomatch hnone.symm.trans hcid
        · exact absurd (Option.some.inj (hsome.symm.trans hcid)).symm (hj a ha)
      · rcases hheld cid' a hcid with ⟨_, haj⟩ | ⟨hcid', _⟩
        · exact absurd haj (hj a ha)
        · exact absurd rfl hcid'
    · exact hne heq
  · rw [hself]
    intro p hp
    cases p with
    | job a => exact job_mem_ptrs.mp hp ▸ hjob
    | buf a =>
      by_cases hobuf : c.obuf = some a
      · exact hbuf a hobuf
      · rw [State.Allocated, hbufs a hobuf]
        exact h.own.alloc pid (.buf a) (by rwa [hc])
  · have hnodup := h.own.nodup pid
    rwa [hc, ← hself] at hnodup
  · rw [hself]
    intro pid' p hpid hp hp'
    exact h.other_ne hc hp' hpid hp rfl
  · rwa [hself]

lemma Inv.dequeue (hcid : s.consumers cid = .entering)
    (hstep : s.dequeue cid = some s') : ∃ l', Inv cipher s' l' := by
  unfold State.dequeue at hstep
  by_cases hnum : 0 < s.num
  · rw [if_pos hnum] at hstep
    cases l with
    | nil =>
      rw [h.queue.num] at hnum
      exact absurd hnum (lt_irrefl 0)
    | cons nj l =>
      obtain ⟨hhead, hrest⟩ := h.queue.chain
      obtain ⟨hnjl, hnodup⟩ := nodup_cons.mp h.queue.nodup
      simp only [hhead, Option.some.injEq] at hstep
      obtain ⟨pid, c, job, hc, rfl, hcall, hsub, hplace⟩ :=
        h.owner (h.places.queued nj mem_cons_self)
      -- the job is in the queue, so no consumer has it
      have hqueued : job.status = 0 ∧ (∀ cid, (s.consumers cid).held ≠ some c.j) ∧ Cleared s c := by
        rcases hplace with ⟨hstatus, hpending⟩ | hfinished
        · cases hpending with
          | queued _ hheld hclear => exact ⟨hstatus, hheld, hclear⟩
          | processing _ hmem | computed _ hmem => exact absurd mem_cons_self hmem
        · exact absurd mem_cons_self hfinished.unlinked.1
      obtain ⟨hstatus, hheld, hclear⟩ := hqueued
      have hlength : wrapInt (s.num - 1) = l.length := by
        have hlt := h.length_lt
        rw [length_cons] at hlt
        rw [h.queue.num, length_cons]
        rw [wrapInt_of_lt] <;> omega
      subst hstep
      refine ⟨l, h.consumerStep hc ⟨h.queue.chain.pop hnjl, hnodup, hlength, ?_, ?_⟩ rfl rfl
        (.inl (by rw [hcid]; rfl)) (.inr rfl) (fun cid' _ => hheld cid') ?_ (fun _ _ => rfl)
        ?_ (fun a ha => update_of_ne ha _ _) (fun _ _ => rfl) ?_ ⟨rfl, List.Subset.refl _⟩ ?_⟩
      · simp only [hlength]
        cases l with
        | nil => rfl
        | cons a l => rw [if_neg (by rw [length_cons]; omega), h.queue.tail, getLast?_cons_cons]
      · rw [append_assoc]
        exact h.queue.order
      · intro a ha
        rw [mem_cons, or_iff_right ha]
      · rw [hcall.stored]
        exact some_ne_none job
      · exact h.obuf_ne_none hc
      · exact ⟨job, { hcall with stored := hcall.stored }, hsub,
          .inl ⟨hstatus, .processing cid hnjl (update_self _ _ _) hclear⟩⟩
  · rw [if_neg hnum, Option.some.injEq] at hstep
    exact ⟨l, hstep ▸ h.consumerIdle (by rw [hcid]; rfl) rfl⟩

lemma Inv.owner_of_held (hheld : (s.consumers cid).held = some nj) :
    ∃ pid c job, s.producers pid = .waiting c ∧ c.j = nj ∧ CallOk s c job ∧
      s.submitted[job.ticket]? = some ⟨pid, c.vjob, c.input⟩ ∧ job.status = 0 ∧ c.j ∉ l ∧
      (s.consumers cid = .processing c.j ∧ Cleared s c ∨ s.consumers cid = .computed c.j ∧
        Computes cipher c.vjob c.input (bufAt s.bufs c.obuf)) := by
  obtain ⟨pid, c, job, hc, rfl, hcall, hsub, hplace⟩ := h.owner (h.places.held cid nj hheld)
  refine ⟨pid, c, job, hc, rfl, hcall, hsub, ?_⟩
  rcases hplace with ⟨hstatus, hpending⟩ | hfinished
  · cases hpending with
    | queued _ hnone => exact absurd hheld (hnone cid)
    | processing cid' hmem hcid' hclear =>
      obtain rfl := h.places.inj cid cid' c.j hheld (by rw [hcid']; rfl)
      exact ⟨hstatus, hmem, .inl ⟨hcid', hclear⟩⟩
    | computed cid' hmem hcid' hout =>
      obtain rfl := h.places.inj cid cid' c.j hheld (by rw [hcid']; rfl)
      exact ⟨hstatus, hmem, .inr ⟨hcid', hout⟩⟩
  · exact absurd hheld (hfinished.unlinked.2 cid)

lemma Inv.held_alone (hheld : (s.consumers cid).held = some nj)
    (cid' : Fin n) (hne : cid' ≠ cid) : (s.consumers cid').held ≠ some nj :=
  fun hheld' => hne (h.places.inj cid' cid nj hheld' hheld)
end

lemma length_of_runJob {operation len : BitVec 32} {input output out : List Byte}
    (h : runJob cipher operation len input output beyond fuel = some out) :
    out.length = output.length := by
  obtain ⟨_, _, rfl⟩ := map_eq_some_iff.mp h
  rw [length_map, length_range]

lemma Inv.compute (h : Inv cipher s l) (hcid : s.consumers cid = .processing nj)
    (hstep : s.compute cipher cid nj beyond fuel = some s') : Inv cipher s' l := by
  have hheld : (s.consumers cid).held = some nj := congrArg _ hcid
  obtain ⟨pid, c, job, hc, rfl, hcall, hsub, hstatus, hmem, hwhere⟩ := h.owner_of_held hheld
  have hclear := (hwhere.resolve_right fun hout => nomatch hcid.symm.trans hout.1).2
  have hnodup : c.ptrs.Nodup := by
    have := h.own.nodup pid
    rwa [hc] at this
  simp only [State.compute, hcall.stored, bind_some, hcall.input, hcall.output, hcall.ibuf,
    show bufAt s.bufs c.obuf = _ from hclear] at hstep
  obtain ⟨out, hout, rfl⟩ := map_eq_some_iff.mp hstep
  have hempty : c.obuf = none → out = [] := fun hnone => by
    have hlen := length_of_runJob hout
    rw [← hclear, hnone] at hlen
    exact length_eq_zero_iff.mp hlen
  refine h.consumerStep hc ⟨h.queue.chain, h.queue.nodup, h.queue.num, h.queue.tail,
    h.queue.order⟩ rfl rfl (.inr hheld) (.inr rfl) ?_ (fun _ _ => Iff.rfl) (fun _ _ => rfl) ?_
    (fun _ _ => rfl) (fun a ha => setBuf_of_ne ha) ?_ ⟨rfl, List.Subset.refl _⟩ ?_
  · exact h.held_alone hheld
  · rw [hcall.stored]
    exact some_ne_none job
  · intro a ha
    simp [ha, setBuf]
  refine ⟨job, { hcall with stored := hcall.stored, ibuf := ?_ }, hsub,
    .inl ⟨hstatus, .computed cid hmem (update_self _ _ _) ?_⟩⟩
  · rw [← hcall.ibuf]
    exact bufAt_congr fun a ha => setBuf_of_ne (ibuf_ne_obuf hnodup ha)
  · rw [bufAt_setBuf hempty]
    exact ⟨beyond, fuel, hcall.operation ▸ hcall.len ▸ hout⟩

lemma Inv.finish (h : Inv cipher s l) (hcid : s.consumers cid = .computed nj)
    (hstep : s.finish cid nj = some s') : Inv cipher s' l := by
  have hheld : (s.consumers cid).held = some nj := congrArg _ hcid
  obtain ⟨pid, c, job, hc, rfl, hcall, hsub, _, hmem, hwhere⟩ := h.owner_of_held hheld
  have hout := (hwhere.resolve_left fun hclear => nomatch hcid.symm.trans hclear.1).2
  have halone := h.held_alone hheld
  simp only [State.finish, hcall.stored, map_some, Option.some.injEq] at hstep
  subst hstep
  refine h.consumerStep hc ⟨h.queue.chain, h.queue.nodup, h.queue.num, h.queue.tail, ?_⟩ rfl rfl
    (.inr hheld) (.inl rfl) halone (fun _ _ => Iff.rfl) (fun a ha => update_of_ne ha _ _) ?_
    (fun _ _ => rfl) (fun _ _ => rfl) ?_ ⟨rfl, subset_append_left _ _⟩ ?_
  · rw [← h.queue.order]
    refine congrArg _ (map_congr_left fun a ha => ?_)
    have hne : a ≠ c.j := fun hac => hmem (hac ▸ ha)
    simp only [State.ticketOf, update_of_ne hne]
  · simp
  · exact h.obuf_ne_none hc
  refine ⟨{ job with status := 1 }, { hcall with stored := update_self _ _ _ }, hsub, .inr
    ⟨rfl, ⟨hmem, fun cid' => ?_⟩, ?_, hout⟩⟩
  · by_cases heq : cid' = cid
    · subst heq
      simp [Consumer.held]
    · simp only [update_of_ne heq]
      exact halone cid' heq
  · rw [hcall.output]
    exact mem_append_right _ (mem_singleton_self _)
end

/-! ## Steps and runs -/

/-- The action is no interrupted wait of a producer for a job that is not finished,
and no reclaim of a pool with jobs in the queue. -/
def Calm (s : State n) : Action n → Prop
  | .wake pid interrupted => interrupted = true →
      ∀ c, s.producers pid = .waiting c → s.statusOf c.j = some 1
  | .reclaim _ => s.head = none
  | _ => True

def RunCalm (cipher : BlockCipher) (s : State n) : List (Action n) → Prop
  | [] => True
  | a :: as => Calm s a ∧ ∀ s', s.step cipher a = some s' → RunCalm cipher s' as

lemma Inv.reclaim (h : Inv cipher s l)
    (hhead : s.head = none) (hstep : s.reclaim fuel = some s') : Inv cipher s' l := by
  have hl : l = [] := IsChain.unique (hhead ▸ h.queue.chain) (show IsChain s.link none [] from rfl)
  subst hl
  have hchain : chainFrom s.link fuel none = some [] := by cases fuel <;> rfl
  simp only [State.reclaim, hhead, hchain, map_some, Option.some.injEq] at hstep
  subst hstep
  exact h.of_frame_all ⟨rfl, h.queue.nodup, rfl, rfl, h.queue.order⟩
    ⟨h.places.queued, h.places.held, h.places.inj⟩ rfl
    fun _ => .of_eq ⟨rfl, rfl, rfl⟩ ⟨rfl, rfl, rfl⟩

lemma Inv.step {s s' : State n} {l : List Nat} {a : Action n} (h : Inv cipher s l)
    (hcalm : Calm s a) (hstep : s.step cipher a = some s') : ∃ l', Inv cipher s' l' := by
  cases step_cases hstep with
  | prepare hc hprepare => exact ⟨l, h.prepare hc hprepare⟩
  | enqueue hc henqueue => exact ⟨_, h.enqueue hc henqueue⟩
  | wake hc hwait =>
    rcases hwait with hsignal | hstatus
    · exact ⟨l, h.wake hc (hcalm hsignal _ hc)⟩
    · exact ⟨l, h.wake hc hstatus⟩
  | writeBack hc => exact ⟨l, h.writeBack hc _⟩
  | cleanup hc => exact ⟨l, h.cleanup hc⟩
  | poll hc _ => exact ⟨l, h.consumerIdle (by rw [hc]; rfl) rfl⟩
  | dequeue hc hdequeue => exact h.dequeue hc hdequeue
  | compute hc hcompute => exact ⟨l, h.compute hc hcompute⟩
  | finish hc hfinish => exact ⟨l, h.finish hc hfinish⟩
  | loop hc =>
    refine ⟨l, h.consumerIdle (by rw [hc]; rfl) ?_⟩
    split <;> rfl
  | reclaim hreclaim => exact ⟨l, h.reclaim hcalm hreclaim⟩

lemma Inv.run {acts : List (Action n)} (h : Inv cipher s l)
    (hcalm : RunCalm cipher s acts) (hrun : s.run cipher acts = some s') :
    ∃ l', Inv cipher s' l' := by
  induction acts generalizing s l with
  | nil =>
    cases hrun
    exact ⟨l, h⟩
  | cons a acts ih =>
    obtain ⟨t, hstep, hrest⟩ := bind_eq_some_iff.mp hrun
    obtain ⟨l', h'⟩ := h.step hcalm.1 hstep
    exact ih h' (hcalm.2 t hstep) hrest

end QemuVmi.KvmCrypto
