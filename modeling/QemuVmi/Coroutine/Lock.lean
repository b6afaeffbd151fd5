import QemuVmi.Lib.OptionFold
import QemuVmi.Lib.RetryLock

/-!
# Locks of coroutines

`qemu-coroutine-lock.c`: `CoMutex` and `CoRwlock`. Waiters sit in the queue of the lock. An unlock
moves the first of them, or all, to `co_queue_wakeup` of the coroutine that unlocks, and they are
entered when that coroutine yields: until then it, or any other coroutine, can take the lock again. In
the model they are entered at any time after the unlock.

Results:
1. `MutexInv.step`, `RwInv.step`: the fields of the locks count their holders.
2. `co_locks_exclude_and_wake`: the locks exclude each other, and no waiter is forgotten.
-/

namespace QemuVmi.Coroutine

open List Function

open RetryLock (Lock State Act Wake)

/-- `qemu_co_mutex_lock` waits while `locked`, and `qemu_co_mutex_unlock` wakes the first waiter with
`qemu_co_queue_next`. -/
def coMutex : Lock Bool Unit where
  blocked locked _ := locked
  take _ _ := some true
  drop locked := if locked = true then some (false, .one) else none

structure CoRwlock where
  writer : Bool
  reader : Nat
deriving DecidableEq, Repr

inductive RwMode
  | read
  | write
deriving DecidableEq, Repr

/-- `qemu_co_rwlock_rdlock`, `qemu_co_rwlock_wrlock` and `qemu_co_rwlock_unlock`. `reader` is signed,
it must not overflow and is asserted not to get negative. -/
def coRwlock : Lock CoRwlock RwMode where
  blocked lock
    | .read => lock.writer
    | .write => lock.writer || lock.reader != 0
  take lock
    | .read => if lock.reader = 0x7fffffff then none else some { lock with reader := lock.reader + 1 }
    | .write => some { lock with writer := true }
  drop lock :=
    if lock.writer = true then some ({ lock with writer := false }, .all)
    else if lock.reader = 0 then none
    else
      -- wakeup only one waiting writer
      some ({ lock with reader := lock.reader - 1 }, if lock.reader - 1 = 0 then .one else .none)

/-- `qemu_co_rwlock_init`. -/
def coRwlockInit : CoRwlock := ⟨false, 0⟩

section
variable {Co σ μ : Type} [DecidableEq Co] [DecidableEq μ]

def Retries (L : Lock σ μ) (s : State Co σ μ) : Prop :=
  ∃ co next rest m s', s.wakeup co = next :: rest ∧ s.status next = .woken m ∧
    RetryLock.step L s (.resume co) = some s' ∧ (next, m) ∈ s'.holders

/-- `locked` says whether there is a holder. -/
def MutexInv (s : State Co Bool Unit) : Prop := s.holders.length = if s.word = true then 1 else 0

def RwInv (s : State Co CoRwlock RwMode) : Prop :=
  (s.word.writer = true ∧ s.word.reader = 0 ∧ ∃ co, s.holders = [(co, .write)]) ∨
    s.word.writer = false ∧ s.word.reader = s.holders.length ∧ ∀ h ∈ s.holders, h.2 = .read

def ReadersWait (s : State Co CoRwlock RwMode) : Prop :=
  ∀ co, s.status co = .waiting .read → s.word.writer = true
end

variable {Co : Type} [DecidableEq Co]

lemma MutexInv.step {s s' : State Co Bool Unit} {a : Act Co Unit} (h : MutexInv s)
    (hstep : RetryLock.step coMutex s a = some s') : MutexInv s' := by
  have htry : ∀ {s s' : State Co Bool Unit} {co m}, MutexInv s →
      RetryLock.tryTake coMutex s co m = some s' → MutexInv s' := by
    intro s s' co m h htake
    rcases RetryLock.tryTake_cases htake with ⟨_, rfl⟩ | ⟨word, hblocked, htaken, rfl⟩
    · exact h
    cases htaken
    have hfree : s.word = false := hblocked
    unfold MutexInv at h ⊢
    rw [hfree] at h
    exact congrArg Nat.succ h
  rcases RetryLock.step_cases hstep with ⟨co, m, _, _, htake⟩ |
    ⟨co, m, word, wake, _, hholds, _, hdrop, rfl⟩ | ⟨co, next, rest, m, _, _, _, htake⟩
  · exact htry h htake
  · dsimp only [coMutex] at hdrop
    split at hdrop
    next hlocked =>
      cases hdrop
      unfold MutexInv at h ⊢
      rw [if_pos hlocked] at h
      change (s.holders.erase (co, m)).length = _
      rw [length_erase_of_mem hholds, h]
      rfl
    · cases hdrop
  · exact htry (s := { s with wakeup := update s.wakeup co rest }) h htake

lemma coMutex_wakes : coMutex.Wakes fun locked => locked = false where
  blocked h hfree := by
    rw [hfree] at h
    cases h
  take h hfree := by
    cases h
    cases hfree
  drop h := by
    dsimp only [coMutex] at h
    split at h <;> cases h

variable {s s' : State Co CoRwlock RwMode}

lemma RwInv.tryTake {co : Co} {m : RwMode} (h : RwInv s)
    (htake : RetryLock.tryTake coRwlock s co m = some s') : RwInv s' := by
  rcases RetryLock.tryTake_cases htake with ⟨_, rfl⟩ | ⟨word, hblocked, htaken, rfl⟩
  · exact h
  cases m with
  | read =>
    dsimp only [coRwlock] at hblocked htaken
    split at htaken
    · cases htaken
    cases htaken
    rcases h with ⟨hwriter, _, _⟩ | ⟨hwriter, hreader, hmode⟩
    · rw [hwriter] at hblocked
      cases hblocked
    refine .inr ⟨hwriter, congrArg Nat.succ hreader, fun h hh => ?_⟩
    rcases mem_cons.mp hh with rfl | hh
    · rfl
    · exact hmode h hh
  | write =>
    cases htaken
    obtain ⟨hwriter, hreader⟩ := Bool.or_eq_false_iff.mp hblocked
    have hzero : s.word.reader = 0 := by simpa using hreader
    rcases h with ⟨hwriter', _, _⟩ | ⟨_, hcount, _⟩
    · rw [hwriter] at hwriter'
      cases hwriter'
    · have hnil : s.holders = [] := length_eq_zero_iff.mp (hcount.symm.trans hzero)
      exact .inl ⟨rfl, hzero, co, congrArg (List.cons (co, RwMode.write)) hnil⟩

lemma RwInv.step {a : Act Co RwMode} (h : RwInv s) (hstep : RetryLock.step coRwlock s a = some s') :
    RwInv s' := by
  rcases RetryLock.step_cases hstep with ⟨co, m, _, _, htake⟩ |
    ⟨co, m, word, wake, _, hholds, _, hdrop, rfl⟩ | ⟨co, next, rest, m, _, _, _, htake⟩
  · exact h.tryTake htake
  · dsimp only [coRwlock] at hdrop
    split at hdrop
    next hwriter =>
      cases hdrop
      rcases h with ⟨_, hreader, co', hone⟩ | ⟨hwriter', _, _⟩
      · have hnil : s.holders.erase (co, m) = [] := by
          rw [hone, mem_singleton] at hholds
          rw [hone, hholds, erase_cons_head]
        refine .inr ⟨rfl, ?_, fun h hh => ?_⟩
        · change s.word.reader = (s.holders.erase (co, m)).length
          rw [hnil, hreader]
          rfl
        · change h ∈ s.holders.erase (co, m) at hh
          rw [hnil] at hh
          cases hh
      · rw [hwriter] at hwriter'
        cases hwriter'
    next hwriter =>
      split at hdrop
      · cases hdrop
      cases hdrop
      rcases h with ⟨hwriter', _, _⟩ | ⟨hwriter', hreader, hmode⟩
      · exact absurd hwriter' hwriter
      · refine .inr ⟨hwriter', ?_, fun h hh => hmode h (mem_of_mem_erase hh)⟩
        change s.word.reader - 1 = (s.holders.erase (co, m)).length
        rw [length_erase_of_mem hholds, hreader]
  · exact RwInv.tryTake (s := { s with wakeup := update s.wakeup co rest }) h htake

lemma ReadersWait.tryTake {co : Co} {m : RwMode}
    (h : ∀ co', co' ≠ co → s.status co' = .waiting .read → s.word.writer = true)
    (htake : RetryLock.tryTake coRwlock s co m = some s') : ReadersWait s' := by
  intro co' hwaiting
  rcases RetryLock.tryTake_cases htake with ⟨hblocked, rfl⟩ | ⟨word, _, htaken, rfl⟩
  · by_cases hco : co' = co
    · subst hco
      dsimp only at hwaiting
      rw [update_self] at hwaiting
      cases hwaiting
      exact hblocked
    · dsimp only at hwaiting
      rw [update_of_ne hco] at hwaiting
      exact h co' hco hwaiting
  · by_cases hco : co' = co
    · subst hco
      dsimp only at hwaiting
      rw [update_self] at hwaiting
      cases hwaiting
    dsimp only at hwaiting
    rw [update_of_ne hco] at hwaiting
    have hwriter := h co' hco hwaiting
    cases m with
    | read =>
      dsimp only [coRwlock] at htaken
      split at htaken
      · cases htaken
      · cases htaken
        exact hwriter
    | write =>
      cases htaken
      rfl

lemma ReadersWait.step {a : Act Co RwMode} (h : ReadersWait s) (hlisted : RetryLock.Listed s)
    (hstep : RetryLock.step coRwlock s a = some s') : ReadersWait s' := by
  rcases RetryLock.step_cases hstep with ⟨co, m, _, _, htake⟩ |
    ⟨co, m, word, wake, _, _, _, hdrop, rfl⟩ | ⟨co, next, rest, m, _, _, _, htake⟩
  · exact ReadersWait.tryTake (fun co' _ => h co') htake
  · intro co' hwaiting
    dsimp only [RetryLock.wakeWaiters] at hwaiting ⊢
    have hold : s.status co' = .waiting .read ∧ co' ∉ s.queue.take (wake.count s.queue.length) := by
      split at hwaiting
      · cases hstatus : s.status co' <;> rw [hstatus] at hwaiting <;> cases hwaiting
      next hnot => exact ⟨hwaiting, hnot⟩
    have hwriter := h co' hold.1
    -- the writer unlocks, and wakes everybody
    dsimp only [coRwlock] at hdrop
    rw [if_pos hwriter] at hdrop
    cases hdrop
    have hin := (hlisted.waiting co').mpr ⟨_, hold.1⟩
    rw [Wake.count, take_length] at hold
    exact absurd hin hold.2
  · exact ReadersWait.tryTake (s := { s with wakeup := update s.wakeup co rest })
      (fun co' _ => h co') htake

lemma coRwlock_wakes : coRwlock.Wakes fun lock => lock.writer = false ∧ lock.reader = 0 where
  blocked {w m} h hfree := by cases m <;> simp [coRwlock, hfree] at h
  take {w m w'} h hfree := by
    cases m with
    | read =>
      dsimp only [coRwlock] at h
      split at h
      · cases h
      · cases h
        exact absurd hfree.2 (Nat.succ_ne_zero _)
    | write =>
      cases h
      cases hfree.1
  drop {w w'} h hfree := by
    dsimp only [coRwlock] at h
    split at h
    · cases h
    split at h
    · cases h
    split at h
    · cases h
    next hreader =>
      cases h
      exact hreader hfree.2

section
variable {σ μ : Type} [DecidableEq μ] {L : Lock σ μ} {free : σ → Prop} {word : σ}

lemma run_retries (hwakes : L.Wakes free)
    (htake : ∀ w m, free w → L.blocked w m = false ∧ (L.take w m).isSome = true)
    {acts : List (Act Co μ)} {s : State Co σ μ}
    (hrun : RetryLock.run L (RetryLock.start word) acts = some s) (hfree : free s.word)
    (hqueue : s.queue ≠ []) : Retries L s := by
  have hinv : RetryLock.Listed s ∧ RetryLock.NoLostWakeup free s :=
    OptionFold.foldlM_invariant
      (motive := fun s => RetryLock.Listed s ∧ RetryLock.NoLostWakeup free s) hrun
      (fun a _ s s' hs hstep => ⟨hs.1.step hstep, RetryLock.NoLostWakeup.step hwakes hstep⟩)
      ⟨RetryLock.listed_start word, fun _ => .inl rfl⟩
  obtain ⟨co, hne⟩ := (hinv.2 hfree).resolve_left hqueue
  obtain ⟨next, rest, hlist⟩ := exists_cons_of_ne_nil hne
  obtain ⟨m, hwoken⟩ := (hinv.1.woken next).mp ⟨co, hlist ▸ mem_cons_self⟩
  obtain ⟨hblocked, htaken⟩ := htake s.word m hfree
  obtain ⟨word', htaken⟩ := Option.isSome_iff_exists.mp htaken
  obtain ⟨s', hstep, _, hholds⟩ := RetryLock.resume_free hlist hwoken hblocked htaken
  exact ⟨co, next, rest, m, s', hlist, hwoken, hstep, hholds⟩
end

lemma run_mutexInv {acts : List (Act Co Unit)} {s : State Co Bool Unit}
    (hrun : RetryLock.run coMutex (RetryLock.start false) acts = some s) : MutexInv s :=
  OptionFold.foldlM_invariant (motive := MutexInv) hrun (fun _ _ _ _ hs hstep => hs.step hstep) rfl

lemma run_rwInv {acts : List (Act Co RwMode)}
    (hrun : RetryLock.run coRwlock (RetryLock.start coRwlockInit) acts = some s) : RwInv s :=
  OptionFold.foldlM_invariant (motive := RwInv) hrun (fun _ _ _ _ hs hstep => hs.step hstep)
    (.inr ⟨rfl, rfl, fun _ hh => absurd hh not_mem_nil⟩)

lemma run_readersWait {acts : List (Act Co RwMode)}
    (hrun : RetryLock.run coRwlock (RetryLock.start coRwlockInit) acts = some s) : ReadersWait s :=
  (OptionFold.foldlM_invariant (motive := fun s => RetryLock.Listed s ∧ ReadersWait s) hrun
    (fun _ _ _ _ hs hstep => ⟨hs.1.step hstep, hs.2.step hs.1 hstep⟩)
    ⟨RetryLock.listed_start _, nofun⟩).2

/-- In every run of any coroutines: a mutex has at most one holder, and a writer is the only holder
of an rwlock; if the lock is free and coroutines wait for it, then one of them has been woken, and
it takes the lock when it is entered; and no reader waits unless there is a writer. -/
theorem co_locks_exclude_and_wake : (∀ (acts : List (Act Co Unit)) (s : State Co Bool Unit),
      RetryLock.run coMutex (RetryLock.start false) acts = some s →
      s.holders.length ≤ 1 ∧ (s.word = true ↔ s.holders ≠ []) ∧
        (s.holders = [] → s.queue ≠ [] → Retries coMutex s)) ∧
    ∀ (acts : List (Act Co RwMode)) (s : State Co CoRwlock RwMode),
      RetryLock.run coRwlock (RetryLock.start coRwlockInit) acts = some s →
      (∀ co, (co, .write) ∈ s.holders → s.holders = [(co, .write)]) ∧
        (s.holders = [] → s.queue ≠ [] → Retries coRwlock s) ∧
        ∀ co, s.status co = .waiting .read → ∃ co', s.holders = [(co', .write)] := by
  refine ⟨fun acts s hrun => ?_, fun acts s hrun => ?_⟩
  · have hinv := run_mutexInv hrun
    unfold MutexInv at hinv
    cases hword : s.word with
    | true =>
      rw [hword, if_pos rfl] at hinv
      have hne : s.holders ≠ [] := ne_nil_of_length_pos (by omega)
      exact ⟨Nat.le_of_eq hinv, iff_of_true rfl hne, fun hnil => absurd hnil hne⟩
    | false =>
      rw [hword, if_neg Bool.false_ne_true] at hinv
      refine ⟨by omega, iff_of_false Bool.false_ne_true (fun hne => hne (length_eq_zero_iff.mp hinv)),
        fun _ hqueue => run_retries coMutex_wakes (fun w m hfree => ⟨hfree, rfl⟩) hrun hword hqueue⟩
  · have hinv := run_rwInv hrun
    refine ⟨fun co hco => ?_, fun hnil hqueue => ?_, fun co hwaiting => ?_⟩
    · rcases hinv with ⟨_, _, co', hone⟩ | ⟨_, _, hmode⟩
      · rw [hone, mem_singleton] at hco
        rw [hone, hco]
      · cases hmode _ hco
    · have hfree : s.word.writer = false ∧ s.word.reader = 0 := by
        rcases hinv with ⟨_, _, co', hone⟩ | ⟨hwriter, hreader, _⟩
        · rw [hnil] at hone
          cases hone
        · rw [hnil] at hreader
          exact ⟨hwriter, hreader⟩
      refine run_retries coRwlock_wakes (fun w m hw => ?_) hrun hfree hqueue
      obtain ⟨writer, reader⟩ := w
      obtain ⟨rfl, rfl⟩ := hw
      cases m <;> exact ⟨rfl, rfl⟩
    · rcases hinv with ⟨_, _, hone⟩ | ⟨hwriter, _, _⟩
      · exact hone
      · rw [run_readersWait hrun co hwaiting] at hwriter
        cases hwriter

/-- The first coroutine takes the mutex again before the one it has woken runs, which goes back to the
end of the queue. -/
theorem co_locks_exclude_and_wake_again :
    ∃ s : State Nat Bool Unit, RetryLock.run coMutex (RetryLock.start false)
        [.acquire 0 (), .acquire 1 (), .acquire 2 (), .release 0 (), .acquire 0 (), .resume 0,
          .release 0 ()] = some s ∧
      s.holders = [] ∧ s.queue = [1] ∧ Retries coMutex s := by
  have hlists : (RetryLock.run coMutex (RetryLock.start false)
      [.acquire 0 (), .acquire 1 (), .acquire 2 (), .release 0 (), .acquire 0 (), .resume 0,
        .release 0 ()]).map (fun s : State Nat Bool Unit => (s.holders, s.queue)) =
      some ([], [1]) := by decide +kernel
  obtain ⟨s, hrun, heq⟩ := Option.map_eq_some_iff.mp hlists
  obtain ⟨hholders, hqueue⟩ := Prod.mk.inj heq
  exact ⟨s, hrun, hholders, hqueue,
    (co_locks_exclude_and_wake.1 _ s hrun).2.2 hholders (hqueue ▸ cons_ne_nil 1 [])⟩

end QemuVmi.Coroutine
