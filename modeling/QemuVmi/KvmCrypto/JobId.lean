import QemuVmi.KvmCrypto.Queue

/-!
# The ids of the crypto jobs

`crypto_produce_job` numbers its jobs with

    j->job_id = global_job_id>MAX_JOB_ID?0:global_job_id++;

outside of `cq_mutex`, and submits them under it. The three accesses to the counter
(the comparison, the load and the store of the increment) and the submission are four
steps here, and the calls of any number of threads interleave.

Two jobs with fewer than `MAX_JOB_ID` others between them are meant to have
different ids. That holds as long as

* the threads go from the comparison to the submission one after the other, and
* at most `MAX_JOB_ID + 2` jobs are submitted: the counter stops at
  `MAX_JOB_ID + 1`, and every job after that has the id 0.

Neither can be dropped (`job_ids_repeat`).
-/

namespace QemuVmi.KvmCrypto.JobId

open Function List Nat

def maxJobId : Nat := 65536

inductive Phase
  | out
  /-- `global_job_id > MAX_JOB_ID` was false. -/
  | checked
  /-- The old value of `global_job_id++`; the increment is not stored yet. -/
  | loaded (id : Nat)
  /-- The job has its id and is not linked yet. -/
  | ready (id : Nat)
deriving DecidableEq, Repr

structure Ids where
  globalJobId : Nat
  phase : Pid → Phase
  /-- Not in the source: the ids of the jobs so far, in the order in which they were
  linked into the queue. -/
  submitted : List Nat

def Ids.initial : Ids := { globalJobId := 0, phase := fun _ => .out, submitted := [] }

def Ids.step (s : Ids) (pid : Pid) : Ids :=
  match s.phase pid with
  | .out =>
    { s with
      phase := update s.phase pid (if s.globalJobId > maxJobId then .ready 0 else .checked) }
  | .checked => { s with phase := update s.phase pid (.loaded s.globalJobId) }
  | .loaded id => { s with globalJobId := id + 1, phase := update s.phase pid (.ready id) }
  | .ready id => { s with phase := update s.phase pid .out, submitted := s.submitted ++ [id] }

def Ids.run (s : Ids) (schedule : List Pid) : Ids := schedule.foldl Ids.step s

/-- Two jobs with fewer than `MAX_JOB_ID` other submissions between them have
different ids. -/
def Separated (submitted : List Nat) : Prop :=
  ∀ i k, i < k → k < submitted.length → k - i - 1 < maxJobId → submitted[i]? ≠ submitted[k]?

/-- The threads submit one after the other: a thread moves only while no other is
between its comparison and its submission. -/
def Serial (s : Ids) : List Pid → Prop
  | [] => True
  | pid :: rest => (∀ other, other ≠ pid → s.phase other = .out) ∧ Serial (s.step pid) rest

/-- The id of the `k`-th job when the threads take turns. -/
def serialId (k : Nat) : Nat := if k ≤ maxJobId then k else 0

/-- What a serial run keeps of a thread: the counter follows the number of jobs until it
stops, and a thread inside still sees the counter it tested. -/
def PhaseOk (s : Ids) : Phase → Prop
  | .out => s.globalJobId = min s.submitted.length (maxJobId + 1)
  | .checked => s.globalJobId = s.submitted.length ∧ s.globalJobId ≤ maxJobId
  | .loaded id => id = s.submitted.length ∧ id ≤ maxJobId
  | .ready id => id = serialId s.submitted.length ∧
      s.globalJobId = min (s.submitted.length + 1) (maxJobId + 1)

/-- The ids so far, and what is known of the one thread that may be inside. -/
structure Inv (s : Ids) : Prop where
  submitted : s.submitted = (range s.submitted.length).map serialId
  phase : ∀ pid, (∀ other, other ≠ pid → s.phase other = .out) → PhaseOk s (s.phase pid)

lemma Inv.initial : Inv Ids.initial := ⟨rfl, fun _ _ => rfl⟩

variable {s : Ids} {pid : Pid} {n : Nat}

lemma PhaseOk.step (h : PhaseOk s (s.phase pid)) :
    PhaseOk (s.step pid) ((s.step pid).phase pid) := by
  unfold Ids.step
  cases hphase : s.phase pid with
  | out =>
    rw [hphase] at h
    simp only [update_self]
    split
    next hover =>
      have hlen : ¬ s.submitted.length ≤ maxJobId := by
        change _ = _ at h
        omega
      change _ = _ at h
      exact ⟨(if_neg hlen).symm, by dsimp only; omega⟩
    next hover =>
      change _ = _ at h
      exact ⟨by dsimp only; omega, not_lt.mp hover⟩
  | checked =>
    rw [hphase] at h
    simp only [update_self]
    exact ⟨h.1, h.2⟩
  | loaded id =>
    rw [hphase] at h
    obtain ⟨rfl, hle⟩ := h
    simp only [update_self]
    exact ⟨(if_pos hle).symm, by dsimp only; omega⟩
  | ready id =>
    rw [hphase] at h
    simp only [update_self, PhaseOk, length_append]
    exact h.2

lemma step_submitted (h : s.submitted = (range s.submitted.length).map serialId)
    (hphase : PhaseOk s (s.phase pid)) :
    (s.step pid).submitted = (range (s.step pid).submitted.length).map serialId := by
  unfold Ids.step
  cases hp : s.phase pid with
  | out | checked | loaded _ => exact h
  | ready id =>
    rw [hp] at hphase
    simp only [length_append, length_singleton, range_succ, map_append, map_singleton, ← h,
      ← hphase.1]

lemma step_phase {other : Pid} (h : other ≠ pid) : (s.step pid).phase other = s.phase other := by
  unfold Ids.step
  split <;> exact update_of_ne h _ _

lemma Inv.step (h : Inv s) (halone : ∀ other, other ≠ pid → s.phase other = .out) :
    Inv (s.step pid) := by
  have hpid := h.phase pid halone
  refine ⟨step_submitted h.submitted hpid, fun other hothers => ?_⟩
  by_cases hother : other = pid
  · rw [hother]
    exact hpid.step
  · -- `pid` is out again, and what holds of it holds of all
    have hout := hothers pid (Ne.symm hother)
    have hstep := hpid.step
    rw [hout] at hstep
    rwa [step_phase hother, halone other hother]

lemma Inv.run {schedule : List Pid} (h : Inv s) (hserial : Serial s schedule) :
    Inv (s.run schedule) := by
  induction schedule generalizing s with
  | nil => exact h
  | cons pid rest ih => exact ih (h.step hserial.1) hserial.2

lemma serialId_separated {i k : Nat} (hlt : i < k) (hk : k < maxJobId + 2)
    (hnear : k - i - 1 < maxJobId) : serialId i ≠ serialId k := by
  have hi : serialId i = i := if_pos (by omega)
  by_cases hle : k ≤ maxJobId
  · rw [hi, serialId, if_pos hle]
    exact hlt.ne
  · -- the first job after the counter stopped; job 0 is too far away
    rw [hi, serialId, if_neg hle]
    omega

/-- In every run in which the threads submit one after the other, near jobs have
different ids exactly if there are at most `MAX_JOB_ID + 2` jobs. -/
theorem job_ids_separated_iff {schedule : List Pid} (hserial : Serial Ids.initial schedule) :
    Separated (Ids.initial.run schedule).submitted ↔
      (Ids.initial.run schedule).submitted.length ≤ maxJobId + 2 := by
  have hinv := (Inv.initial.run hserial).submitted
  generalize (Ids.initial.run schedule).submitted = submitted at hinv
  have hget : ∀ k, k < submitted.length → submitted[k]? = some (serialId k) := by
    intro k hk
    rw [hinv, List.getElem?_map, List.getElem?_range hk, Option.map_some]
  constructor
  · intro hsep
    by_contra hlong
    have hlen := not_le.mp hlong
    refine hsep (maxJobId + 1) (maxJobId + 2) (lt_succ_self _) hlen (by decide) ?_
    rw [hget _ (lt_of_succ_lt hlen), hget _ hlen]
    rfl
  · intro hlen i k hlt hk hnear
    rw [hget i (hlt.trans hk), hget k hk]
    exact fun heq => serialId_separated hlt (hk.trans_le hlen) hnear (Option.some.inj heq)

lemma serial_replicate (halone : ∀ other, other ≠ pid → s.phase other = .out) (n : Nat) :
    Serial s (replicate n pid) := by
  induction n generalizing s with
  | zero => trivial
  | succ n ih => exact ⟨halone, ih fun other hother => (step_phase hother).trans (halone other hother)⟩

def pid₁ : Pid := ⟨1, by decide⟩

def pid₂ : Pid := ⟨2, by decide⟩

/-- Two jobs of one thread. -/
theorem job_ids_separated_two_jobs : Separated (Ids.initial.run (replicate 8 pid₁)).submitted :=
  (job_ids_separated_iff (serial_replicate (fun _ _ => rfl) 8)).mpr (by decide)

lemma run_four (hphase : s.phase pid = .out) (hle : s.globalJobId ≤ maxJobId) :
    s.run [pid, pid, pid, pid] =
      ⟨s.globalJobId + 1, s.phase, s.submitted ++ [s.globalJobId]⟩ := by
  simp only [Ids.run, foldl_cons, foldl_nil, Ids.step, hphase, update_self, update_idem,
    if_neg (not_lt.mpr hle)]
  rw [← hphase, update_eq_self]

lemma run_replicate (pid : Pid) (hn : n ≤ maxJobId + 1) :
    Ids.initial.run (replicate (4 * n) pid) =
      { globalJobId := n, phase := fun _ => .out, submitted := range n } := by
  induction n with
  | zero => rfl
  | succ n ih =>
    have hsplit : replicate (4 * (n + 1)) pid =
        replicate (4 * n) pid ++ [pid, pid, pid, pid] := replicate_add (4 * n) 4 pid
    have hstart := ih (le_of_succ_le hn)
    rw [Ids.run] at hstart
    rw [Ids.run, hsplit, foldl_append, hstart, range_succ]
    exact run_four rfl (le_of_succ_le_succ hn)

lemma run_stopped (hphase : s.phase pid = .out) (hover : s.globalJobId > maxJobId) :
    s.run [pid, pid] = { s with submitted := s.submitted ++ [0] } := by
  simp only [Ids.run, foldl_cons, foldl_nil, Ids.step, hphase, update_self, update_idem,
    if_pos hover]
  rw [← hphase, update_eq_self]

lemma submitted_two_more (hn : n = maxJobId + 1) (pid : Pid) :
    (Ids.initial.run (replicate (4 * n) pid ++ [pid, pid] ++ [pid, pid])).submitted =
      range n ++ [0] ++ [0] := by
  have hover : n > maxJobId := lt_of_lt_of_eq (lt_succ_self _) hn.symm
  have hrun : ∀ (s : Ids) (a b : List Pid), s.run (a ++ b) = (s.run a).run b := fun _ _ _ =>
    foldl_append ..
  rw [hrun, hrun, run_replicate pid hn.le, run_stopped (s := ⟨n, fun _ => .out, _⟩) rfl hover,
    run_stopped (s := ⟨n, fun _ => .out, _⟩) rfl hover]

lemma not_separated_two_more : ¬ Separated (range n ++ [0] ++ [0]) := by
  intro hsep
  refine hsep n (n + 1) n.lt_succ_self ?_ ?_ ?_
  · simp
  · rw [Nat.add_sub_cancel_left]
    decide
  · simp

/-- One thread submits `MAX_JOB_ID + 3` jobs, and the last two both have the id 0.
And two threads that evaluate the expression in turns both get the id 0. -/
theorem job_ids_repeat :
    ¬ Separated (Ids.initial.run
      (replicate (4 * (maxJobId + 1)) pid₁ ++ [pid₁, pid₁] ++ [pid₁, pid₁])).submitted ∧
    (Ids.initial.run [pid₁, pid₂, pid₁, pid₂, pid₁, pid₂, pid₁, pid₂]).submitted = [0, 0] := by
  constructor
  · rw [submitted_two_more rfl]
    exact not_separated_two_more
  · decide

end QemuVmi.KvmCrypto.JobId
