import QemuVmi.Plugin.SyscallChecker

/-!
# Starting and stopping the plugin's threads

`syscall_checker_start`, `syscall_checker_stop` (`plugin/syscall_checker.c`),
`listener_start` and `listener_stop` (`plugin/daemon.c`). Each service keeps a
started flag and the id of its last thread in global variables.

`listener_stop` clears the flag after it has joined the thread, and
`syscall_checker_stop` does not. So the checker can be stopped once and then
neither started again nor stopped without cancelling a thread that is gone:

1. `runGood_iff`: in a run of commands whose `pthread` calls succeed, the flags
   follow the threads in every state exactly when no stop reaches a started
   checker, no listener thread returns by itself and every start of the checker
   finds a table of fewer than `2^29` entries.
2. `checker_stop_leaves_flag`: one start and one stop of the checker.

The commands carry the outcomes of the `pthread` calls, so the branches for
their failures are there; the results are about commands that succeed.
-/

namespace QemuVmi.Plugin

open ByteMemory Bool List

/-- What has become of a thread. A thread that was cancelled, or whose function
returned, has ended but is not yet joined. -/
inductive ThreadStatus
  | running
  | ended
  | joined
deriving DecidableEq, Repr

structure Thread (ι : Type) where
  arg : ι
  status : ThreadStatus

/-- The globals of one service and the threads it has created, oldest first. The
`pthread_t` variable is an index into them. -/
structure Service (ι : Type) where
  started : Nat
  tid : Nat
  threads : List (Thread ι)
  monitor : List String
  stdout : List String

def Service.initial (ι : Type) : Service ι :=
  { started := 0, tid := 0, threads := [], monitor := [], stdout := [] }

variable {ι : Type}

section
variable (s : Service ι)

def Service.monitorPrintf (text : String) : Service ι :=
  { s with monitor := s.monitor ++ [text] }

def Service.printf (text : String) : Service ι :=
  { s with stdout := s.stdout ++ [text] }

/-- A `pthread_create` that succeeds. -/
def Service.create (arg : ι) : Service ι :=
  { s with tid := s.threads.length, threads := s.threads ++ [⟨arg, .running⟩] }

/-- The thread in the `pthread_t` variable gets a new status. -/
def Service.setStatus (status : ThreadStatus) : Service ι :=
  { s with threads := s.threads.modify s.tid fun t => { t with status := status } }

def Service.live : Nat :=
  s.threads.countP fun t => decide (t.status = .running)

/-- `syscall_checker_start`. It does not return when the counting loop does not. -/
def syscallCheckerStart (fuel : Nat) (mem : Mem) (createOk : Bool) (s : Service SyscallInfo) :
    Option (Service SyscallInfo) :=
  if s.started = 1 then
    some (s.monitorPrintf "error: system call checker already started.\n")
  else
    (takeSnapshot fuel mem).map fun info =>
      if createOk then
        { s.create info with started := 1 }.monitorPrintf "system call checker started.\n\n"
      else s.printf "Failed to create thread\n"

def syscallCheckerStop (cancelOk joinOk : Bool) (s : Service SyscallInfo) : Service SyscallInfo :=
  if s.started = 0 then s.monitorPrintf "system call checker NOT started.\n"
  else if !cancelOk then s.printf "Failed to cancel thread\n"
  else if !joinOk then (s.setStatus .ended).printf "Failed to join thread\n"
  else (s.setStatus .joined).monitorPrintf "system call checker stopped.\n"

def listenerStart (createOk : Bool) (s : Service Unit) : Service Unit :=
  if s.started = 1 then s.monitorPrintf "error: listener already started.\n"
  else if createOk then { s.create () with started := 1 }.monitorPrintf "listener started.\n\n"
  else s.printf "Failed to create thread\n"

def listenerStop (cancelOk joinOk : Bool) (s : Service Unit) : Service Unit :=
  if s.started = 0 then s.monitorPrintf "listener NOT started.\n"
  else if !cancelOk then s.printf "Failed to cancel thread\n"
  else if !joinOk then (s.setStatus .ended).printf "Failed to join thread\n"
  else { s.setStatus .joined with started := 0 }.monitorPrintf "listener stopped.\n"

/-- `thread_listen` returns, which it does when `listener_service` could not
create or bind its socket. -/
def listenerReturn (s : Service Unit) : Service Unit :=
  match s.threads[s.tid]? with
  | some ⟨_, .running⟩ => s.setStatus .ended
  | _ => s

structure Services where
  checker : Service SyscallInfo
  listener : Service Unit

def Services.initial : Services :=
  { checker := Service.initial SyscallInfo, listener := Service.initial Unit }

/-- A command from the monitor, with the guest's memory at that moment and the
outcomes of the `pthread` calls, or the return of a listener thread. -/
inductive Command
  | checkerStart (mem : Mem) (createOk : Bool)
  | checkerStop (cancelOk joinOk : Bool)
  | listenerStart (createOk : Bool)
  | listenerStop (cancelOk joinOk : Bool)
  | listenerReturn

/-- One command, with fuel for the loop of `syscall_checker_start`. -/
def Services.step (fuel : Nat) (p : Services) : Command → Option Services
  | .checkerStart mem createOk =>
      (syscallCheckerStart fuel mem createOk p.checker).map fun s => { p with checker := s }
  | .checkerStop cancelOk joinOk =>
      some { p with checker := syscallCheckerStop cancelOk joinOk p.checker }
  | .listenerStart createOk => some { p with listener := listenerStart createOk p.listener }
  | .listenerStop cancelOk joinOk =>
      some { p with listener := listenerStop cancelOk joinOk p.listener }
  | .listenerReturn => some { p with listener := listenerReturn p.listener }

/-- The command returns and leaves `p'`. -/
def Services.Step (p : Services) (c : Command) (p' : Services) : Prop :=
  ∃ fuel, p.step fuel c = some p'

/-- The `pthread` calls of the command succeed. -/
def Command.Succeeds : Command → Prop
  | .checkerStart _ createOk => createOk = true
  | .checkerStop cancelOk joinOk => cancelOk = true ∧ joinOk = true
  | .listenerStart createOk => createOk = true
  | .listenerStop cancelOk joinOk => cancelOk = true ∧ joinOk = true
  | .listenerReturn => True

def Service.FlagExact : Prop := s.started = 1 ↔ s.live = 1

def Service.Creates (s s' : Service ι) (arg : ι) : Prop :=
  s'.threads = s.threads ++ [⟨arg, .running⟩] ∧ s'.started = 1

def Service.CancelsUnjoined : Prop :=
  s.started ≠ 0 → ∃ t, s.threads[s.tid]? = some t ∧ t.status ≠ .joined
end

/-- What one command is to do: a start without a live thread creates one, for the
checker with all entries of the table at that start, and a stop cancels no thread
that has been joined. -/
def StepGood (p p' : Services) : Command → Prop
  | .checkerStart mem _ => p.checker.live = 0 →
      ∃ n, TableLength mem n ∧
        p.checker.Creates p'.checker ⟨(range n).map (syscallEntry mem), n * 8⟩
  | .checkerStop _ _ => p.checker.CancelsUnjoined
  | .listenerStart _ => p.listener.live = 0 → p.listener.Creates p'.listener ()
  | .listenerStop _ _ => p.listener.CancelsUnjoined
  | .listenerReturn => True

/-- In every state of the run both flags are exact, and every command returns and
does what it is to do. -/
def RunGood (p : Services) : List Command → Prop
  | [] => p.checker.FlagExact ∧ p.listener.FlagExact
  | c :: cs => (p.checker.FlagExact ∧ p.listener.FlagExact) ∧
      (∃ p', p.Step c p') ∧ ∀ p', p.Step c p' → StepGood p p' c ∧ RunGood p' cs

/-- The command does not drive a service into the states that it cannot track: it
is no stop of a started checker and no return of a running listener thread, and a
start of the checker finds a zero word after a table whose size is an `unsigned int`. -/
def Safe (p : Services) : Command → Prop
  | .checkerStart mem _ => p.checker.started = 0 → ∃ n, n < 2 ^ 29 ∧ TableLength mem n
  | .checkerStop _ _ => p.checker.started = 0
  | .listenerReturn => p.listener.live = 0
  | _ => True

def RunSafe (p : Services) : List Command → Prop
  | [] => True
  | c :: cs => Safe p c ∧ ∀ p', p.Step c p' → RunSafe p' cs

/-- A service whose flag and threads agree: nothing runs, or the last thread runs
alone and its id is in the `pthread_t` variable. -/
inductive Service.Tracked (s : Service ι) : Prop
  | idle : s.started = 0 → s.live = 0 → Tracked s
  | busy (before : List (Thread ι)) (arg : ι) : s.started = 1 →
      s.threads = before ++ [⟨arg, .running⟩] → s.tid = before.length →
      (before.countP fun t => decide (t.status = .running)) = 0 → Tracked s

section
variable {s : Service ι}

lemma Service.Tracked.flagExact (h : s.Tracked) : s.FlagExact := by
  cases h with
  | idle hflag hlive => simp [Service.FlagExact, hflag, hlive]
  | busy before arg hflag hthreads _ hbefore =>
    simp [Service.FlagExact, Service.live, hflag, hthreads, countP_append, hbefore]

lemma Service.Tracked.started_of_live (h : s.Tracked) (hlive : s.live = 0) : s.started = 0 := by
  cases h with
  | idle hflag _ => exact hflag
  | busy before arg _ hthreads _ _ => simp [Service.live, hthreads, countP_append] at hlive

lemma Service.Tracked.live_of_started (h : s.Tracked) (hflag : s.started = 0) : s.live = 0 := by
  cases h with
  | idle _ hlive => exact hlive
  | busy before arg hone _ _ _ => cases hflag.symm.trans hone

lemma Service.Tracked.cancelsUnjoined (h : s.Tracked) : s.CancelsUnjoined := by
  intro hflag
  cases h with
  | idle hzero _ => exact absurd hzero hflag
  | busy before arg _ hthreads htid _ =>
    refine ⟨⟨arg, .running⟩, ?_, by simp⟩
    rw [hthreads, htid, List.getElem?_concat_length]

lemma Service.Tracked.monitorPrintf (h : s.Tracked) (text : String) :
    (s.monitorPrintf text).Tracked := by
  cases h with
  | idle hflag hlive => exact .idle hflag hlive
  | busy before arg hflag hthreads htid hbefore => exact .busy before arg hflag hthreads htid hbefore

lemma Service.Tracked.create (hlive : s.live = 0) (arg : ι) :
    Service.Tracked { s.create arg with started := 1 } :=
  .busy s.threads arg rfl rfl rfl hlive

lemma live_setStatus_of_busy {before : List (Thread ι)} {arg : ι} {status : ThreadStatus}
    (hthreads : s.threads = before ++ [⟨arg, .running⟩]) (htid : s.tid = before.length)
    (hbefore : (before.countP fun t => decide (t.status = .running)) = 0)
    (hstatus : status ≠ .running) : (s.setStatus status).live = 0 := by
  have hmodify : (s.setStatus status).threads = before ++ [⟨arg, status⟩] := by
    simp only [Service.setStatus, hthreads, htid]
    rw [modify_eq_take_cons_drop (by simp)]
    simp
  simp [Service.live, hmodify, countP_append, hbefore, hstatus]
end

/-! ### One command -/

lemma syscallCheckerStart_spec {fuel : Nat} {mem : Mem} {s s' : Service SyscallInfo}
    (h : s.Tracked) (hstart : syscallCheckerStart fuel mem true s = some s') :
    (s.live = 0 → ∃ info, takeSnapshot fuel mem = some info ∧ s.Creates s' info) ∧ s'.Tracked := by
  cases h with
  | idle hflag hlive =>
    simp only [syscallCheckerStart, hflag, zero_ne_one, ↓reduceIte] at hstart
    obtain ⟨info, hinfo, rfl⟩ := Option.map_eq_some_iff.mp hstart
    exact ⟨fun _ => ⟨info, hinfo, rfl, rfl⟩, (Service.Tracked.create hlive info).monitorPrintf _⟩
  | busy before arg hflag hthreads htid hbefore =>
    have htracked : s.Tracked := .busy before arg hflag hthreads htid hbefore
    simp only [syscallCheckerStart, hflag, ↓reduceIte, Option.some.injEq] at hstart
    subst hstart
    refine ⟨fun hlive => ?_, htracked.monitorPrintf _⟩
    rw [htracked.started_of_live hlive] at hflag
    cases hflag

lemma syscallCheckerStart_returns_iff {mem : Mem} {createOk : Bool} {s : Service SyscallInfo}
    (h : s.Tracked) : (∃ fuel s', syscallCheckerStart fuel mem createOk s = some s') ↔
      (s.started = 0 → ∃ n, n < 2 ^ 32 ∧ TableLength mem n) := by
  cases h with
  | idle hflag hlive =>
    simp only [syscallCheckerStart, hflag, zero_ne_one, ↓reduceIte, forall_const]
    constructor
    · rintro ⟨fuel, s', hstart⟩
      obtain ⟨info, hinfo, _⟩ := Option.map_eq_some_iff.mp hstart
      obtain ⟨n, hcount, _⟩ := Option.map_eq_some_iff.mp hinfo
      exact ⟨n, tableLength_of_countEntries hcount⟩
    · rintro ⟨n, hn, htable⟩
      obtain ⟨fuel, hinfo⟩ := (takeSnapshot_iff htable).mpr ⟨hn, rfl⟩
      exact ⟨fuel, _, by rw [hinfo, Option.map_some]⟩
  | busy before arg hflag hthreads htid hbefore => simp [syscallCheckerStart, hflag]

variable {s : Service Unit}

lemma listenerStart_spec (h : s.Tracked) :
    (s.live = 0 → s.Creates (listenerStart true s) ()) ∧ (listenerStart true s).Tracked := by
  cases h with
  | idle hflag hlive =>
    simp only [listenerStart, hflag, zero_ne_one, ↓reduceIte]
    exact ⟨fun _ => ⟨rfl, rfl⟩, (Service.Tracked.create hlive ()).monitorPrintf _⟩
  | busy before arg hflag hthreads htid hbefore =>
    have htracked : s.Tracked := .busy before arg hflag hthreads htid hbefore
    simp only [listenerStart, hflag, ↓reduceIte]
    refine ⟨fun hlive => ?_, htracked.monitorPrintf _⟩
    rw [htracked.started_of_live hlive] at hflag
    cases hflag

lemma listenerStop_tracked (h : s.Tracked) : (listenerStop true true s).Tracked := by
  cases h with
  | idle hflag hlive =>
    simp only [listenerStop, hflag, ↓reduceIte]
    exact Service.Tracked.monitorPrintf (.idle hflag hlive) _
  | busy before arg hflag hthreads htid hbefore =>
    simp only [listenerStop, hflag, Nat.one_ne_zero, ↓reduceIte, Bool.not_true, Bool.false_eq_true]
    refine Service.Tracked.monitorPrintf (.idle rfl ?_) _
    exact live_setStatus_of_busy hthreads htid hbefore (by decide)

lemma not_flagExact_checkerStop {s : Service SyscallInfo} (h : s.Tracked)
    (hflag : s.started ≠ 0) : ¬ (syscallCheckerStop true true s).FlagExact := by
  cases h with
  | idle hzero _ => exact absurd hzero hflag
  | busy before arg hone hthreads htid hbefore =>
    have hlive : (s.setStatus .joined).live = 0 :=
      live_setStatus_of_busy hthreads htid hbefore (by decide)
    simp only [syscallCheckerStop, hone, Nat.one_ne_zero, ↓reduceIte, Bool.not_true, false_eq_true]
    intro hexact
    have hcount : (s.setStatus .joined).live = 1 := hexact.mp hone
    rw [hlive] at hcount
    cases hcount

lemma not_flagExact_listenerReturn (h : s.Tracked) (hlive : s.live ≠ 0) :
    ¬ (listenerReturn s).FlagExact := by
  cases h with
  | idle _ hzero => exact absurd hzero hlive
  | busy before arg hone hthreads htid hbefore =>
    have hthread : s.threads[s.tid]? = some ⟨arg, .running⟩ := by
      rw [hthreads, htid, List.getElem?_concat_length]
    have hended : (s.setStatus .ended).live = 0 :=
      live_setStatus_of_busy hthreads htid hbefore (by decide)
    simp only [listenerReturn, hthread]
    intro hexact
    have hcount := hexact.mp hone
    rw [hended] at hcount
    cases hcount

lemma listenerReturn_of_live (hlive : s.live = 0) : listenerReturn s = s := by
  rw [listenerReturn]
  split
  · next arg hthread =>
    have hnone := List.countP_eq_zero.mp hlive ⟨arg, .running⟩ (mem_of_getElem? hthread)
    exact absurd rfl hnone
  · rfl

def Services.Tracked (p : Services) : Prop := p.checker.Tracked ∧ p.listener.Tracked

variable {p : Services} {c : Command}

lemma Services.Tracked.step {p' : Services} (h : p.Tracked) (hok : c.Succeeds) (hsafe : Safe p c)
    (hstep : p.Step c p') : StepGood p p' c ∧ p'.Tracked := by
  obtain ⟨hchecker, hlistener⟩ := h
  obtain ⟨fuel, hstep⟩ := hstep
  cases c with
  | checkerStart mem createOk =>
    obtain ⟨s, hs, rfl⟩ := Option.map_eq_some_iff.mp hstep
    cases hok
    obtain ⟨hcreates, htracked⟩ := syscallCheckerStart_spec hchecker hs
    refine ⟨fun hlive => ?_, htracked, hlistener⟩
    obtain ⟨n, hn, htable⟩ := hsafe (hchecker.started_of_live hlive)
    obtain ⟨info, hinfo, hcreated⟩ := hcreates hlive
    obtain ⟨_, rfl⟩ := (takeSnapshot_iff htable).mp ⟨fuel, hinfo⟩
    rw [snapshotOf, Nat.mod_eq_of_lt hn, Nat.mod_eq_of_lt (by omega)] at hcreated
    exact ⟨n, htable, hcreated⟩
  | checkerStop cancelOk joinOk =>
    cases hstep
    refine ⟨hchecker.cancelsUnjoined, ?_, hlistener⟩
    have hflag : p.checker.started = 0 := hsafe
    simp only [syscallCheckerStop, hflag, ↓reduceIte]
    exact hchecker.monitorPrintf _
  | listenerStart createOk =>
    cases hstep
    cases hok
    obtain ⟨hcreates, htracked⟩ := listenerStart_spec hlistener
    exact ⟨hcreates, hchecker, htracked⟩
  | listenerStop cancelOk joinOk =>
    cases hstep
    obtain ⟨rfl, rfl⟩ := hok
    exact ⟨hlistener.cancelsUnjoined, hchecker, listenerStop_tracked hlistener⟩
  | listenerReturn =>
    cases hstep
    refine ⟨trivial, hchecker, ?_⟩
    rwa [listenerReturn_of_live hsafe]

lemma Services.Tracked.returns (h : p.Tracked) (hsafe : Safe p c) : ∃ p', p.Step c p' := by
  cases c with
  | checkerStart mem createOk =>
    obtain ⟨fuel, s, hs⟩ := (syscallCheckerStart_returns_iff h.1).mpr fun hflag => by
      obtain ⟨n, hn, htable⟩ := hsafe hflag
      exact ⟨n, by omega, htable⟩
    exact ⟨_, fuel, Option.map_eq_some_iff.mpr ⟨s, hs, rfl⟩⟩
  | checkerStop cancelOk joinOk | listenerStart createOk | listenerStop cancelOk joinOk
  | listenerReturn => exact ⟨_, 0, rfl⟩

lemma Services.Tracked.safe_of_good (h : p.Tracked) (hok : c.Succeeds)
    (hreturns : ∃ p', p.Step c p') (hgood : ∀ p', p.Step c p' →
      StepGood p p' c ∧ p'.checker.FlagExact ∧ p'.listener.FlagExact) : Safe p c := by
  cases c with
  | checkerStart mem createOk =>
    intro hflag
    obtain ⟨p', fuel, hstep⟩ := hreturns
    have hcreated := (hgood p' ⟨fuel, hstep⟩).1
    obtain ⟨s, hs, rfl⟩ := Option.map_eq_some_iff.mp hstep
    cases hok
    have hlive := h.1.live_of_started hflag
    obtain ⟨info, hinfo, hthreads, _⟩ := (syscallCheckerStart_spec h.1 hs).1 hlive
    obtain ⟨n, htable, hcreates, _⟩ := hcreated hlive
    -- the one thread that was created has both snapshots
    obtain rfl : info = _ := by simpa using hthreads.symm.trans hcreates
    obtain ⟨_, hsize⟩ := (takeSnapshot_iff htable).mp ⟨fuel, hinfo⟩
    have hmod : n * 8 = n * 8 % 2 ^ 32 := congrArg SyscallInfo.syscallTableSize hsize
    exact ⟨n, by omega, htable⟩
  | checkerStop cancelOk joinOk =>
    obtain ⟨rfl, rfl⟩ := hok
    by_contra hflag
    exact not_flagExact_checkerStop h.1 hflag (hgood _ ⟨0, rfl⟩).2.1
  | listenerStart createOk | listenerStop cancelOk joinOk => trivial
  | listenerReturn =>
    by_contra hlive
    exact not_flagExact_listenerReturn h.2 hlive (hgood _ ⟨0, rfl⟩).2.2

lemma RunGood.flagExact {cs : List Command} (h : RunGood p cs) :
    p.checker.FlagExact ∧ p.listener.FlagExact := by
  cases cs with
  | nil => exact h
  | cons c cs => exact h.1

lemma runGood_iff_of_tracked (h : p.Tracked) {cs : List Command} (hok : ∀ c ∈ cs, c.Succeeds) :
    RunGood p cs ↔ RunSafe p cs := by
  induction cs generalizing p with
  | nil => exact ⟨fun _ => trivial, fun _ => ⟨h.1.flagExact, h.2.flagExact⟩⟩
  | cons c cs ih =>
    have hc : c.Succeeds := hok c mem_cons_self
    have hcs : ∀ c ∈ cs, c.Succeeds := fun c' hc' => hok c' (mem_cons_of_mem _ hc')
    constructor
    · rintro ⟨_, hreturns, hrest⟩
      have hsafe : Safe p c := h.safe_of_good hc hreturns fun p' hstep =>
        ⟨(hrest p' hstep).1, (hrest p' hstep).2.flagExact⟩
      refine ⟨hsafe, fun p' hstep => ?_⟩
      exact (ih (h.step hc hsafe hstep).2 hcs).mp (hrest p' hstep).2
    · rintro ⟨hsafe, hrest⟩
      refine ⟨⟨h.1.flagExact, h.2.flagExact⟩, h.returns hsafe, fun p' hstep => ?_⟩
      obtain ⟨hgood, htracked⟩ := h.step hc hsafe hstep
      exact ⟨hgood, (ih htracked hcs).mpr (hrest p' hstep)⟩

lemma Services.initial_tracked : Services.initial.Tracked := ⟨.idle rfl rfl, .idle rfl rfl⟩

/-- For every run of commands from the initial state whose `pthread` calls
succeed: in every state of the run the flag of each service is 1 exactly when one
of its threads is live, every start returns and creates a thread when none is
live (the checker with all entries of the table at that start), and no stop cancels a
joined thread, if and only if no stop reaches a started checker, no running listener
thread returns by itself, and every start of the checker finds the end of the table
within `2^29` words. -/
theorem runGood_iff {cs : List Command} (hok : ∀ c ∈ cs, c.Succeeds) :
    RunGood Services.initial cs ↔ RunSafe Services.initial cs :=
  runGood_iff_of_tracked Services.initial_tracked hok

/-- The listener may be stopped and started again. -/
theorem runGood_iff_listener :
    RunGood Services.initial
      [.listenerStart true, .listenerStop true true, .checkerStop true true, .listenerStart true,
        .checkerStart (fun _ => 0#8) true] := by
  refine (runGood_iff ?_).mpr ?_
  · simp [Command.Succeeds]
  refine ⟨trivial, ?_⟩
  rintro _ ⟨_, ⟨⟩⟩
  refine ⟨trivial, ?_⟩
  rintro _ ⟨_, ⟨⟩⟩
  refine ⟨rfl, ?_⟩
  rintro _ ⟨_, ⟨⟩⟩
  refine ⟨trivial, ?_⟩
  rintro _ ⟨_, ⟨⟩⟩
  refine ⟨fun _ => ⟨0, by decide, fun i hi => absurd hi (Nat.not_lt_zero i), by decide⟩, ?_⟩
  exact fun _ _ => trivial

/-- A start and a stop leave the checker's flag set with no thread live: the next
start is refused, and the next stop cancels the joined thread. -/
theorem checker_stop_leaves_flag :
    ¬ RunGood Services.initial [.checkerStart (fun _ => 0#8) true, .checkerStop true true] := by
  rintro ⟨_, _, hrest⟩
  obtain ⟨_, _, _, hrest⟩ := hrest _ ⟨1, rfl⟩
  obtain ⟨_, hexact, _⟩ := hrest _ ⟨1, rfl⟩
  exact absurd (hexact.mp rfl) (by decide)

end QemuVmi.Plugin
