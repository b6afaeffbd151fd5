import Mathlib

/-!
# Locks whose waiters try again

A lock with a queue for tasks that run one at a time. A task that finds the lock taken waits in the
queue. A release moves waiters to the list of the releasing task, and whoever is in such a list is
resumed at some later point and tries again; until then others can take the lock.

Results:
1. `Listed.step`: a task is in at most one place.
2. `NoLostWakeup.step`: while the lock is free and tasks wait, one of them is about to try again, if
   tasks wait only for a lock that is not free and a release that frees it wakes one of them.
3. `resume_free`: the one that tries again takes a lock that is still free.
-/

namespace RetryLock

open List Function

inductive Wake
  | none
  | one
  | all
deriving DecidableEq, Repr

def Wake.count : Wake → Nat → Nat
  | none, _ => 0
  | one, _ => 1
  | all, n => n

/-- A lock with a word of type `σ` that is taken in a mode of type `μ`. -/
structure Lock (σ μ : Type*) where
  blocked : σ → μ → Bool
  take : σ → μ → Option σ
  drop : σ → Option (σ × Wake)

inductive Status (μ : Type*)
  | running
  | waiting (m : μ)
  | woken (m : μ)
deriving DecidableEq, Repr

def Status.wake {μ : Type*} : Status μ → Status μ
  | waiting m => woken m
  | st => st

/-- The word, the queue, for each task the tasks it has woken, and the tasks that hold the lock. -/
structure State (τ σ μ : Type*) where
  word : σ
  queue : List τ
  wakeup : τ → List τ
  status : τ → Status μ
  holders : List (τ × μ)

inductive Act (τ μ : Type*)
  | acquire (t : τ) (m : μ)
  | release (t : τ) (m : μ)
  | resume (t : τ)
deriving DecidableEq, Repr

variable {τ σ μ : Type*} [DecidableEq τ] (L : Lock σ μ)

def tryTake (s : State τ σ μ) (t : τ) (m : μ) : Option (State τ σ μ) :=
  if L.blocked s.word m then
    some { s with queue := s.queue ++ [t], status := update s.status t (.waiting m) }
  else
    (L.take s.word m).map fun word =>
      { s with
        word := word
        status := update s.status t .running
        holders := (t, m) :: s.holders }

/-- Move the first waiters to the list of `t`. -/
def wakeWaiters (s : State τ σ μ) (t : τ) (n : Nat) : State τ σ μ :=
  { s with
    queue := s.queue.drop n
    wakeup := update s.wakeup t (s.wakeup t ++ s.queue.take n)
    status := fun u => if u ∈ s.queue.take n then (s.status u).wake else s.status u }

section
variable [DecidableEq μ]

def step (s : State τ σ μ) : Act τ μ → Option (State τ σ μ)
  | .acquire t m =>
    match s.status t with
    | .running => tryTake L s t m
    | _ => none
  | .release t m =>
    match s.status t with
    | .running =>
      if (t, m) ∈ s.holders then
        (L.drop s.word).map fun r =>
          wakeWaiters { s with word := r.1, holders := s.holders.erase (t, m) } t
            (r.2.count s.queue.length)
      else none
    | _ => none
  | .resume t =>
    match s.wakeup t with
    | [] => none
    | next :: rest =>
      match s.status next with
      | .woken m => tryTake L { s with wakeup := update s.wakeup t rest } next m
      | _ => none

def run (s : State τ σ μ) (acts : List (Act τ μ)) : Option (State τ σ μ) := acts.foldlM (step L) s
end

def start (word : σ) : State τ σ μ := ⟨word, [], fun _ => [], fun _ => .running, []⟩

/-- A task is in the queue if it waits, in one of the lists if it has been woken, and nowhere
twice. -/
structure Listed (s : State τ σ μ) : Prop where
  queue : s.queue.Nodup
  wakeup : ∀ t, (s.wakeup t).Nodup
  waiting : ∀ u, u ∈ s.queue ↔ ∃ m, s.status u = .waiting m
  woken : ∀ u, (∃ t, u ∈ s.wakeup t) ↔ ∃ m, s.status u = .woken m
  unique : ∀ u t t', u ∈ s.wakeup t → u ∈ s.wakeup t' → t = t'

def NoLostWakeup (free : σ → Prop) (s : State τ σ μ) : Prop :=
  free s.word → s.queue = [] ∨ ∃ t, s.wakeup t ≠ []

structure Lock.Wakes (free : σ → Prop) : Prop where
  blocked : ∀ {w m}, L.blocked w m = true → ¬ free w
  take : ∀ {w m w'}, L.take w m = some w' → ¬ free w'
  drop : ∀ {w w'}, L.drop w = some (w', .none) → ¬ free w'

variable {L} {free : σ → Prop} {s s' : State τ σ μ} {a : Act τ μ} {t : τ} {m : μ} {n : Nat}

lemma tryTake_cases (h : tryTake L s t m = some s') : (L.blocked s.word m = true ∧
      s' = { s with queue := s.queue ++ [t], status := update s.status t (.waiting m) }) ∨
    ∃ word, L.blocked s.word m = false ∧ L.take s.word m = some word ∧ s' = { s with
        word := word
        status := update s.status t .running
        holders := (t, m) :: s.holders } := by
  unfold tryTake at h
  split at h
  next hblocked => exact .inl ⟨hblocked, (Option.some.inj h).symm⟩
  next hblocked =>
    obtain ⟨word, htake, rfl⟩ := Option.map_eq_some_iff.mp h
    exact .inr ⟨word, Bool.eq_false_iff.mpr hblocked, htake, rfl⟩

lemma step_cases [DecidableEq μ] (h : step L s a = some s') :
    (∃ t m, s.status t = .running ∧ a = .acquire t m ∧ tryTake L s t m = some s') ∨
    (∃ t m word wake, s.status t = .running ∧ (t, m) ∈ s.holders ∧ a = .release t m ∧
      L.drop s.word = some (word, wake) ∧
      s' = wakeWaiters { s with word := word, holders := s.holders.erase (t, m) } t
        (wake.count s.queue.length)) ∨
    ∃ t next rest m, s.wakeup t = next :: rest ∧ s.status next = .woken m ∧ a = .resume t ∧
      tryTake L { s with wakeup := update s.wakeup t rest } next m = some s' := by
  cases a with
  | acquire t m =>
    dsimp only [step] at h
    split at h
    next hstatus => exact .inl ⟨t, m, hstatus, rfl, h⟩
    · cases h
  | release t m =>
    dsimp only [step] at h
    split at h
    next hstatus =>
      split at h
      next hholds =>
        obtain ⟨⟨word, wake⟩, hdrop, rfl⟩ := Option.map_eq_some_iff.mp h
        exact .inr (.inl ⟨t, m, word, wake, hstatus, hholds, rfl, hdrop, rfl⟩)
      · cases h
    · cases h
  | resume t =>
    dsimp only [step] at h
    split at h
    · cases h
    next next rest hwakeup =>
      split at h
      next m hstatus => exact .inr (.inr ⟨t, next, rest, m, hwakeup, hstatus, rfl, h⟩)
      · cases h

/-- The task `t` is in no place, and the others are in theirs. -/
structure ListedBut (t : τ) (s : State τ σ μ) : Prop where
  queue : s.queue.Nodup
  wakeup : ∀ t, (s.wakeup t).Nodup
  waiting : ∀ u, u ≠ t → (u ∈ s.queue ↔ ∃ m, s.status u = .waiting m)
  woken : ∀ u, u ≠ t → ((∃ t, u ∈ s.wakeup t) ↔ ∃ m, s.status u = .woken m)
  unique : ∀ u t t', u ∈ s.wakeup t → u ∈ s.wakeup t' → t = t'
  not_waiting : t ∉ s.queue
  not_woken : ∀ u, t ∉ s.wakeup u

omit [DecidableEq τ] in
lemma Listed.but (h : Listed s) (ht : s.status t = .running) : ListedBut t s where
  queue := h.queue
  wakeup := h.wakeup
  waiting u _ := h.waiting u
  woken u _ := h.woken u
  unique := h.unique
  not_waiting hin := by
    obtain ⟨m, hm⟩ := (h.waiting t).mp hin
    rw [ht] at hm
    cases hm
  not_woken u hin := by
    obtain ⟨m, hm⟩ := (h.woken t).mp ⟨u, hin⟩
    rw [ht] at hm
    cases hm

lemma Listed.pop {next : τ} {rest : List τ} (h : Listed s) (hlist : s.wakeup t = next :: rest)
    (hnext : s.status next = .woken m) :
    ListedBut next { s with wakeup := update s.wakeup t rest } := by
  have hsub : ∀ {u v}, u ∈ update s.wakeup t rest v → u ∈ s.wakeup v := by
    intro u v hu
    by_cases hv : v = t
    · subst hv
      rw [update_self] at hu
      exact hlist ▸ mem_cons_of_mem next hu
    · rwa [update_of_ne hv] at hu
  have hnodup := h.wakeup t
  rw [hlist, nodup_cons] at hnodup
  refine ⟨h.queue, fun v => ?_, fun u _ => h.waiting u, fun u hu => ?_,
    fun u v v' hv hv' => h.unique u v v' (hsub hv) (hsub hv'), fun hin => ?_, fun v hin => ?_⟩
  · by_cases hv : v = t
    · subst hv
      dsimp only
      rw [update_self]
      exact hnodup.2
    · dsimp only
      rw [update_of_ne hv]
      exact h.wakeup v
  · refine (Iff.trans ⟨?_, ?_⟩ (h.woken u))
    · rintro ⟨v, hv⟩
      exact ⟨v, hsub hv⟩
    rintro ⟨v, hv⟩
    refine ⟨v, ?_⟩
    by_cases hvt : v = t
    · subst hvt
      rw [hlist] at hv
      dsimp only
      rw [update_self]
      exact (mem_cons.mp hv).resolve_left hu
    · dsimp only
      rwa [update_of_ne hvt]
  · obtain ⟨m', hm'⟩ := (h.waiting next).mp hin
    rw [hnext] at hm'
    cases hm'
  -- it was in this list only, and there only once
  have hv : v = t := h.unique next v t (hsub hin) (hlist ▸ mem_cons_self)
  subst hv
  dsimp only at hin
  rw [update_self] at hin
  exact hnodup.1 hin

lemma ListedBut.tryTake (h : ListedBut t s) (htake : RetryLock.tryTake L s t m = some s') :
    Listed s' := by
  rcases tryTake_cases htake with ⟨_, rfl⟩ | ⟨word, _, _, rfl⟩
  · refine ⟨?_, h.wakeup, fun u => ?_, fun u => ?_, h.unique⟩
    · exact nodup_append.mpr ⟨h.queue, by simp, fun a ha b hb hab =>
        h.not_waiting (mem_singleton.mp hb ▸ hab ▸ ha)⟩
    · by_cases hu : u = t
      · subst hu
        simp
      · dsimp only
        rw [mem_append, update_of_ne hu, mem_singleton, or_iff_left hu]
        exact h.waiting u hu
    · by_cases hu : u = t
      · subst hu
        simp [h.not_woken]
      · dsimp only
        rw [update_of_ne hu]
        exact h.woken u hu
  · refine ⟨h.queue, h.wakeup, fun u => ?_, fun u => ?_, h.unique⟩
    · by_cases hu : u = t
      · subst hu
        simp [h.not_waiting]
      · dsimp only
        rw [update_of_ne hu]
        exact h.waiting u hu
    · by_cases hu : u = t
      · subst hu
        simp [h.not_woken]
      · dsimp only
        rw [update_of_ne hu]
        exact h.woken u hu

lemma Listed.wakeWaiters (h : Listed s) (t : τ) (n : Nat) :
    Listed (RetryLock.wakeWaiters s t n) := by
  have hmoved : ∀ {u}, u ∈ s.queue.take n → u ∈ s.queue := fun hu => mem_of_mem_take hu
  -- those who wait are in no list yet
  have hfresh : ∀ {u v}, u ∈ s.queue.take n → u ∉ s.wakeup v := by
    intro u v hu hin
    obtain ⟨m, hm⟩ := (h.waiting u).mp (hmoved hu)
    obtain ⟨m', hm'⟩ := (h.woken u).mp ⟨v, hin⟩
    rw [hm] at hm'
    cases hm'
  have hrest : ∀ {u}, u ∈ s.queue.drop n → u ∉ s.queue.take n := by
    intro u hdrop htake
    have hnodup := h.queue
    rw [← take_append_drop n s.queue, nodup_append] at hnodup
    exact hnodup.2.2 u htake u hdrop rfl
  have hlist : ∀ {u v}, u ∈ (RetryLock.wakeWaiters s t n).wakeup v ↔
      u ∈ s.wakeup v ∨ (v = t ∧ u ∈ s.queue.take n) := by
    intro u v
    dsimp only [RetryLock.wakeWaiters]
    by_cases hv : v = t
    · subst hv
      rw [update_self, mem_append]
      exact or_congr_right (iff_and_self.mpr fun _ => rfl)
    · rw [update_of_ne hv]
      exact ⟨.inl, fun hor => hor.resolve_right fun hand => hv hand.1⟩
  have hstatus : ∀ u, (RetryLock.wakeWaiters s t n).status u =
      if u ∈ s.queue.take n then (s.status u).wake else s.status u := fun _ => rfl
  refine ⟨h.queue.sublist (drop_sublist n s.queue), fun v => ?_, fun u => ?_, fun u => ?_,
    fun u v v' hv hv' => ?_⟩
  · dsimp only [RetryLock.wakeWaiters]
    by_cases hv : v = t
    · subst hv
      rw [update_self]
      exact nodup_append.mpr ⟨h.wakeup v, h.queue.sublist (take_sublist n s.queue),
        fun a ha b hb hab => hfresh hb (hab ▸ ha)⟩
    · rw [update_of_ne hv]
      exact h.wakeup v
  · rw [hstatus]
    change u ∈ s.queue.drop n ↔ _
    by_cases hu : u ∈ s.queue.take n
    · obtain ⟨m, hm⟩ := (h.waiting u).mp (hmoved hu)
      rw [if_pos hu, hm]
      exact iff_of_false (fun hdrop => hrest hdrop hu) nofun
    rw [if_neg hu, ← h.waiting u]
    refine ⟨fun hdrop => mem_of_mem_drop hdrop, fun hin => ?_⟩
    rw [← take_append_drop n s.queue, mem_append] at hin
    exact hin.resolve_left hu
  · rw [hstatus]
    by_cases hu : u ∈ s.queue.take n
    · obtain ⟨m, hm⟩ := (h.waiting u).mp (hmoved hu)
      rw [if_pos hu, hm]
      exact iff_of_true ⟨t, hlist.mpr (.inr ⟨rfl, hu⟩)⟩ ⟨m, rfl⟩
    · rw [if_neg hu, ← h.woken u]
      refine exists_congr fun v => hlist.trans ⟨fun hor => hor.resolve_right fun hand => hu hand.2, .inl⟩
  · rcases hlist.mp hv with hold | ⟨rfl, hnew⟩ <;> rcases hlist.mp hv' with hold' | ⟨rfl, hnew'⟩
    · exact h.unique u v v' hold hold'
    · exact absurd hold (hfresh hnew')
    · exact absurd hold' (hfresh hnew)
    · rfl

lemma Listed.step [DecidableEq μ] (h : Listed s) (hstep : RetryLock.step L s a = some s') :
    Listed s' := by
  rcases step_cases hstep with ⟨t, m, hrunning, _, htake⟩ | ⟨t, m, word, wake, _, _, _, _, rfl⟩ |
    ⟨t, next, rest, m, hlist, hwoken, _, htake⟩
  · exact (h.but hrunning).tryTake htake
  · have hdropped : Listed { s with word := word, holders := s.holders.erase (t, m) } :=
      ⟨h.queue, h.wakeup, h.waiting, h.woken, h.unique⟩
    exact hdropped.wakeWaiters t _
  · exact (h.pop hlist hwoken).tryTake htake

omit [DecidableEq τ] in
lemma listed_start (word : σ) : Listed (start word : State τ σ μ) where
  queue := nodup_nil
  wakeup _ := nodup_nil
  waiting _ := iff_of_false not_mem_nil nofun
  woken _ := iff_of_false nofun nofun
  unique _ _ _ h := absurd h not_mem_nil

lemma NoLostWakeup.tryTake (hwakes : L.Wakes free) (htake : RetryLock.tryTake L s t m = some s') :
    NoLostWakeup free s' := by
  intro hfree
  rcases tryTake_cases htake with ⟨hblocked, rfl⟩ | ⟨word, _, htaken, rfl⟩
  · exact absurd hfree (hwakes.blocked hblocked)
  · exact absurd hfree (hwakes.take htaken)

lemma NoLostWakeup.step [DecidableEq μ] (hwakes : L.Wakes free)
    (hstep : RetryLock.step L s a = some s') : NoLostWakeup free s' := by
  rcases step_cases hstep with ⟨t, m, _, _, htake⟩ | ⟨t, m, word, wake, _, _, _, hdrop, rfl⟩ |
    ⟨t, next, rest, m, _, _, _, htake⟩
  · exact NoLostWakeup.tryTake hwakes htake
  · intro hfree
    cases wake with
    | none => exact absurd hfree (hwakes.drop hdrop)
    | one =>
      cases hqueue : s.queue with
      | nil => exact .inl rfl
      | cons u queue =>
        refine .inr ⟨t, ?_⟩
        dsimp only [wakeWaiters, Wake.count]
        rw [update_self]
        exact append_ne_nil_of_right_ne_nil _ (cons_ne_nil u _)
    | all =>
      left
      exact drop_length
  · exact NoLostWakeup.tryTake hwakes htake

/-- A task that has been woken takes the lock, if it can be taken. -/
lemma resume_free [DecidableEq μ] {next : τ} {rest : List τ} {word : σ} (hlist : s.wakeup t = next :: rest)
    (hwoken : s.status next = .woken m) (hblocked : L.blocked s.word m = false)
    (htake : L.take s.word m = some word) :
    ∃ s', RetryLock.step L s (.resume t) = some s' ∧ s'.word = word ∧ (next, m) ∈ s'.holders := by
  refine ⟨{ s with
    word := word
    wakeup := update s.wakeup t rest
    status := update s.status next .running
    holders := (next, m) :: s.holders }, ?_, rfl, mem_cons_self⟩
  rw [RetryLock.step, hlist]
  dsimp only
  rw [hwoken]
  dsimp only
  rw [RetryLock.tryTake, hblocked, if_neg Bool.false_ne_true, htake]
  rfl

end RetryLock
