import QemuVmi.KvmCrypto.Cipher
import QemuVmi.Lib.LinkedChain

/-!
# The job queue of the crypto threads

The concurrent part of `x86/kvm_crypto.c`: any number of host threads in
`crypto_produce_job`, a pool of threads in `crypto_consume_job`, and
`crypto_pool_reclaim`, as one step function over the shared state. What runs
under `cq_mutex` is one step; so is every other piece of code between two points
at which another thread can see a difference.

* A producer prepares its job (allocates it and its buffers and reads the guest),
  links it into the queue, waits for `status == 1`, copies the output back and
  frees what it allocated, one `kfree` at a time.
* A consumer waits for the queue, unlinks the first job, runs the cipher over its
  buffers, sets `status`, and tests whether to go on.
* Every wait is interruptible: it may also return because of a signal.

Jobs and buffers live at addresses that `kmalloc` picks, any that is not in use,
and `kfree` gives them back. The `next` fields of the jobs are kept apart from
their other fields, as `link`. The results are in `QueueOrder` and `QueueFrees`.

The private copy of the `vm_job` is a local of the producer. The job ids, which
are only printed, are in `JobId`. What a block loop writes behind its buffer is not
in these steps; `State.heapStep` in `QueueOrder` adds it.
-/

namespace QemuVmi.KvmCrypto

open Function LinkedChain

/-- A host thread that runs a virtual CPU. `pid_t` is a positive `int`. -/
abbrev Pid := Fin (2 ^ 31 - 1)

/-- `struct crypto_job`. A buffer pointer is `none` for `ZERO_SIZE_PTR`, which
`kmalloc(0)` returns and `kfree` ignores. -/
structure CryptoJob where
  input : Option Nat
  output : Option Nat
  len : BitVec 32
  operation : BitVec 32
  status : Nat
  /-- Not in the source: the number of the submission. -/
  ticket : Nat
deriving DecidableEq, Repr

/-- What a thread can pass to `kfree`. -/
inductive Ptr
  | job (a : Nat)
  | buf (a : Nat)
deriving DecidableEq, Repr

/-- The locals of `crypto_produce_job` once the job is allocated. -/
structure Call where
  vjob : VmJob
  ibuf : Option Nat
  obuf : Option Nat
  j : Nat
  /-- Not in the source: the input as it was read from the guest. -/
  input : List Byte

/-- What the `out` label frees for a call that got as far as its job. -/
def Call.ptrs (c : Call) : List Ptr :=
  (c.ibuf.map Ptr.buf).toList ++ (c.obuf.map Ptr.buf).toList ++ [.job c.j]

inductive Producer
  | idle
  /-- Before `mutex_lock`. -/
  | prepared (c : Call)
  /-- In `wait_event_interruptible`. -/
  | waiting (c : Call)
  | woken (c : Call)
  /-- At the label `out`, with what is still to be freed and `hc_ret`. -/
  | cleaning (rest : List Ptr) (hcRet : Nat)

inductive Consumer
  /-- In `wait_event_interruptible`. -/
  | polling
  /-- Behind the wait, before `mutex_lock`. -/
  | entering
  /-- Has unlinked `nj`. -/
  | processing (nj : Nat)
  /-- Has run the cipher over the buffers of `nj`. -/
  | computed (nj : Nat)
  | looping
  | exited
deriving DecidableEq

/-- The job in the hands of a consumer: its `nj`, until it has set the status. -/
def Consumer.held : Consumer → Option Nat
  | .processing nj => some nj
  | .computed nj => some nj
  | _ => none

structure Submission where
  pid : Pid
  vjob : VmJob
  input : List Byte

/-- A `kvm_write_guest` of a producer. -/
structure WriteBack where
  pid : Pid
  outputGpa : BitVec 64
  bytes : List Byte

/-- The shared state, the threads, and four histories: what was submitted, the
tickets of the jobs that were unlinked, the outputs of the jobs that were
finished, and what was copied back. -/
structure State (n : Nat) where
  jobs : Nat → Option CryptoJob
  link : Nat → Option Nat
  bufs : Nat → Option (List Byte)
  head : Option Nat
  tail : Option Nat
  num : Int
  stop : Bool
  producers : Pid → Producer
  consumers : Fin n → Consumer
  submitted : List Submission
  dequeued : List Nat
  finished : List (Nat × List Byte)
  written : List WriteBack

/-- The state that `crypto_pool_initialization` leaves, with `n` consumers. -/
def State.initial (n : Nat) : State n :=
  { jobs := fun _ => none, link := fun _ => none, bufs := fun _ => none
    head := none, tail := none, num := 0, stop := false
    producers := fun _ => .idle, consumers := fun _ => .polling
    submitted := [], dequeued := [], finished := [], written := [] }

/-- What `kmalloc` returns for a buffer of this length, if it picks address `a`. -/
def bufPtr (len a : Nat) : Option Nat := if len = 0 then none else some a

def bufAt (bufs : Nat → Option (List Byte)) : Option Nat → List Byte
  | none => []
  | some a => (bufs a).getD []

def setBuf (bufs : Nat → Option (List Byte)) (p : Option Nat) (bytes : List Byte) :
    Nat → Option (List Byte) :=
  match p with
  | none => bufs
  | some a => update bufs a (some bytes)

variable {n : Nat}

section
variable (s : State n)

def State.kfree : Ptr → State n
  | .job a => { s with jobs := update s.jobs a none }
  | .buf a => { s with bufs := update s.bufs a none }

def State.Allocated : Ptr → Prop
  | .job a => s.jobs a ≠ none
  | .buf a => s.bufs a ≠ none

def region (bytes : List Byte) (beyond : Nat → Byte) : Nat → Byte := fun i =>
  bytes.getD i (beyond i)

/-- The output buffer after the loop. What is written behind it is `State.spilled`. -/
def runJob (cipher : BlockCipher) (operation len : BitVec 32) (input output : List Byte)
    (beyond : Nat → Byte) (fuel : Nat) : Option (List Byte) :=
  (processJob cipher operation len (region input beyond) (region output fun _ => 0#8) fuel).map
    fun s => (List.range output.length).map s.dst

/-- How the first part of `crypto_produce_job` goes. The addresses are the choice
of `kmalloc`. -/
inductive Prepare
  /-- No memory for the `vm_job`, or it cannot be read. -/
  | unreadable
  | inputUnreadable (len a b : Nat)
  | ready (vjob : VmJob) (a b j : Nat) (input : List Byte)

/-- `kmalloc` can return the buffers `a` and `b` of this length. -/
def State.canAlloc (len a b : Nat) : Bool :=
  len ≤ kmallocMaxSize && (s.bufs a).isNone && (s.bufs b).isNone && a != b

def State.allocBufs (a b : Nat) (input : List Byte) : Nat → Option (List Byte) :=
  setBuf (setBuf s.bufs (bufPtr input.length a) input) (bufPtr input.length b)
    (List.replicate input.length 0#8)

/-- `crypto_produce_job` up to `mutex_lock`, or to the label `out`. -/
def State.prepare (pid : Pid) : Prepare → Option (State n)
  | .unreadable => some { s with producers := update s.producers pid (.cleaning [] 1) }
  | .inputUnreadable len a b =>
      if s.canAlloc len a b then
        let rest := ((bufPtr len a).map Ptr.buf).toList ++ ((bufPtr len b).map Ptr.buf).toList
        some { s with
          bufs := s.allocBufs a b (List.replicate len 0#8)
          producers := update s.producers pid (.cleaning rest 1) }
      else none
  | .ready vjob a b j input =>
      if s.canAlloc input.length a b && (s.jobs j).isNone && vjob.len.toNat == input.length then
        let c : Call :=
          { vjob := vjob, ibuf := bufPtr input.length a, obuf := bufPtr input.length b, j := j
            input := input }
        let job : CryptoJob :=
          { input := c.ibuf, output := c.obuf, len := vjob.len, operation := vjob.operation
            status := 0, ticket := 0 }
        some { s with
          bufs := s.allocBufs a b input
          jobs := update s.jobs j (some job)
          link := update s.link j none
          producers := update s.producers pid (.prepared c) }
      else none

/-- `cq.num++` and `cq.num--` on an `int`. -/
def wrapInt (x : Int) : Int := x.bmod (2 ^ 32)

/-- The critical section of `crypto_produce_job`. It dereferences `cq.tail` when
`cq.num` is not 0. -/
def State.linkJob (j : Nat) : Option (State n) :=
  if s.num = 0 then
    some { s with head := some j, tail := some j, num := wrapInt (s.num + 1) }
  else
    match s.tail with
    | none => none
    | some t => some { s with
        link := update s.link t (some j), tail := some j, num := wrapInt (s.num + 1) }

def State.enqueue (pid : Pid) (c : Call) : Option (State n) :=
  match s.jobs c.j with
  | none => none
  | some job =>
      State.linkJob { s with
        jobs := update s.jobs c.j (some { job with ticket := s.submitted.length })
        submitted := s.submitted ++ [⟨pid, c.vjob, c.input⟩]
        producers := update s.producers pid (.waiting c) } c.j

def State.statusOf (j : Nat) : Option Nat := (s.jobs j).map CryptoJob.status

/-- Behind the wait: `kvm_write_guest`, and then the label `out`. -/
def State.writeBack (pid : Pid) (c : Call) (ok : Bool) : State n :=
  { s with
    written := s.written ++ [⟨pid, c.vjob.outputGpa, bufAt s.bufs c.obuf⟩]
    producers := update s.producers pid (.cleaning c.ptrs (if ok then 0 else 1)) }

/-- One `kfree` at the label `out`, or the return. -/
def State.cleanup (pid : Pid) (rest : List Ptr) (hcRet : Nat) : State n :=
  match rest with
  | [] => { s with producers := update s.producers pid .idle }
  | p :: rest => { s.kfree p with producers := update s.producers pid (.cleaning rest hcRet) }

def State.ticketOf (a : Nat) : Nat := ((s.jobs a).map CryptoJob.ticket).getD 0

/-- The critical section of `crypto_consume_job`. Another consumer may have taken
the job that ended the wait. It dereferences `cq.head` when `cq.num` is positive. -/
def State.dequeue (cid : Fin n) : Option (State n) :=
  if 0 < s.num then
    match s.head with
    | none => none
    | some nj =>
        let num := wrapInt (s.num - 1)
        some { s with
          head := s.link nj
          link := update s.link nj none
          num := num
          tail := if num = 0 then none else s.tail
          dequeued := s.dequeued ++ [s.ticketOf nj]
          consumers := update s.consumers cid (.processing nj) }
  else some { s with consumers := update s.consumers cid .looping }

def State.compute (cipher : BlockCipher) (s : State n) (cid : Fin n) (nj : Nat)
    (beyond : Nat → Byte) (fuel : Nat) : Option (State n) :=
  (s.jobs nj).bind fun job =>
    (runJob cipher job.operation job.len (bufAt s.bufs job.input) (bufAt s.bufs job.output) beyond
      fuel).map fun out =>
      { s with
        bufs := setBuf s.bufs job.output out
        consumers := update s.consumers cid (.computed nj) }

/-- `nj->status = 1`, after which the consumer does not use the job again. -/
def State.finish (cid : Fin n) (nj : Nat) : Option (State n) :=
  (s.jobs nj).map fun job =>
    { s with
      jobs := update s.jobs nj (some { job with status := 1 })
      finished := s.finished ++ [(job.ticket, bufAt s.bufs job.output)]
      consumers := update s.consumers cid .looping }

/-- The jobs that the loop of `crypto_pool_reclaim` frees. It reads the link of a
job before it frees it. -/
def chainFrom (link : Nat → Option Nat) : Nat → Option Nat → Option (List Nat)
  | _, none => some []
  | 0, some _ => none
  | fuel + 1, some a => (chainFrom link fuel (link a)).map (a :: ·)

/-- `crypto_pool_reclaim` up to `cq.stop = 1`. -/
def State.reclaim (fuel : Nat) : Option (State n) :=
  (chainFrom s.link fuel s.head).map fun l =>
    { l.foldl (fun s a => s.kfree (.job a)) s with
      head := none, tail := none, num := 0, stop := true }
end

inductive Action (n : Nat)
  | prepare (pid : Pid) (p : Prepare)
  | enqueue (pid : Pid)
  | wake (pid : Pid) (interrupted : Bool)
  | writeBack (pid : Pid) (ok : Bool)
  | cleanup (pid : Pid)
  | poll (cid : Fin n) (interrupted : Bool)
  | dequeue (cid : Fin n)
  | compute (cid : Fin n) (beyond : Nat → Byte) (fuel : Nat)
  | finish (cid : Fin n)
  | loop (cid : Fin n)
  | reclaim (fuel : Nat)

def State.step (cipher : BlockCipher) (s : State n) : Action n → Option (State n)
  | .prepare pid p =>
      match s.producers pid with
      | .idle => s.prepare pid p
      | _ => none
  | .enqueue pid =>
      match s.producers pid with
      | .prepared c => s.enqueue pid c
      | _ => none
  | .wake pid interrupted =>
      match s.producers pid with
      | .waiting c =>
          if interrupted || s.statusOf c.j == some 1 then
            some { s with producers := update s.producers pid (.woken c) }
          else none
      | _ => none
  | .writeBack pid ok =>
      match s.producers pid with
      | .woken c => some (s.writeBack pid c ok)
      | _ => none
  | .cleanup pid =>
      match s.producers pid with
      | .cleaning rest hcRet => some (s.cleanup pid rest hcRet)
      | _ => none
  | .poll cid interrupted =>
      match s.consumers cid with
      | .polling =>
          if interrupted || decide (0 < s.num) || s.stop then
            some { s with consumers := update s.consumers cid .entering }
          else none
      | _ => none
  | .dequeue cid =>
      match s.consumers cid with
      | .entering => s.dequeue cid
      | _ => none
  | .compute cid beyond fuel =>
      match s.consumers cid with
      | .processing nj => s.compute cipher cid nj beyond fuel
      | _ => none
  | .finish cid =>
      match s.consumers cid with
      | .computed nj => s.finish cid nj
      | _ => none
  | .loop cid =>
      match s.consumers cid with
      | .looping =>
          let next := if s.stop then Consumer.exited else .polling
          some { s with consumers := update s.consumers cid next }
      | _ => none
  | .reclaim fuel => s.reclaim fuel

inductive StepCase (cipher : BlockCipher) (s : State n) : Action n → State n → Prop
  | prepare {pid p s'} : s.producers pid = .idle → s.prepare pid p = some s' →
      StepCase cipher s (.prepare pid p) s'
  | enqueue {pid c s'} : s.producers pid = .prepared c → s.enqueue pid c = some s' →
      StepCase cipher s (.enqueue pid) s'
  | wake {pid interrupted c} : s.producers pid = .waiting c →
      interrupted = true ∨ s.statusOf c.j = some 1 → StepCase cipher s (.wake pid interrupted)
        { s with producers := update s.producers pid (.woken c) }
  | writeBack {pid ok c} : s.producers pid = .woken c →
      StepCase cipher s (.writeBack pid ok) (s.writeBack pid c ok)
  | cleanup {pid rest hcRet} : s.producers pid = .cleaning rest hcRet →
      StepCase cipher s (.cleanup pid) (s.cleanup pid rest hcRet)
  | poll {cid interrupted} : s.consumers cid = .polling →
      (interrupted || decide (0 < s.num) || s.stop) = true →
      StepCase cipher s (.poll cid interrupted)
        { s with consumers := update s.consumers cid .entering }
  | dequeue {cid s'} : s.consumers cid = .entering → s.dequeue cid = some s' →
      StepCase cipher s (.dequeue cid) s'
  | compute {cid beyond fuel nj s'} : s.consumers cid = .processing nj →
      s.compute cipher cid nj beyond fuel = some s' →
      StepCase cipher s (.compute cid beyond fuel) s'
  | finish {cid nj s'} : s.consumers cid = .computed nj → s.finish cid nj = some s' →
      StepCase cipher s (.finish cid) s'
  | loop {cid} : s.consumers cid = .looping → StepCase cipher s (.loop cid)
      { s with consumers := update s.consumers cid (if s.stop then .exited else .polling) }
  | reclaim {fuel s'} : s.reclaim fuel = some s' → StepCase cipher s (.reclaim fuel) s'

lemma step_cases {cipher : BlockCipher} {s s' : State n} {a : Action n}
    (h : s.step cipher a = some s') : StepCase cipher s a s' := by
  cases a with
  | prepare pid p =>
    simp only [State.step] at h
    split at h
    · next hc => exact .prepare hc h
    · cases h
  | enqueue pid =>
    simp only [State.step] at h
    split at h
    · next hc => exact .enqueue hc h
    · cases h
  | wake pid interrupted =>
    simp only [State.step] at h
    split at h
    · next hc =>
      simp only [Bool.or_eq_true, beq_iff_eq, Option.ite_none_right_eq_some, Option.some.injEq] at h
      exact h.2 ▸ .wake hc h.1
    · cases h
  | writeBack pid ok =>
    simp only [State.step] at h
    split at h
    · next hc => exact Option.some.inj h ▸ .writeBack hc
    · cases h
  | cleanup pid =>
    simp only [State.step] at h
    split at h
    · next hc => exact Option.some.inj h ▸ .cleanup hc
    · cases h
  | poll cid interrupted =>
    simp only [State.step] at h
    split at h
    · next hc =>
      simp only [Option.ite_none_right_eq_some, Option.some.injEq] at h
      exact h.2 ▸ .poll hc h.1
    · cases h
  | dequeue cid =>
    simp only [State.step] at h
    split at h
    · next hc => exact .dequeue hc h
    · cases h
  | compute cid beyond fuel =>
    simp only [State.step] at h
    split at h
    · next hc => exact .compute hc h
    · cases h
  | finish cid =>
    simp only [State.step] at h
    split at h
    · next hc => exact .finish hc h
    · cases h
  | loop cid =>
    simp only [State.step] at h
    split at h
    · next hc => exact Option.some.inj h ▸ .loop hc
    · cases h
  | reclaim fuel => exact .reclaim h

def State.run (cipher : BlockCipher) (s : State n) : List (Action n) → Option (State n)
  | [] => some s
  | a :: as => (s.step cipher a).bind fun s => s.run cipher as

end QemuVmi.KvmCrypto
