import Mathlib

/-!
# Deadlines of timer lists

`timerlist_expired`, `timerlist_deadline_ns` and `timerlist_run_timers` of `qemu-timer.c` each ask
whether the first timer of a list has expired. They differ at the very instant it does, when
`timerlist_expired` still says no, and where the time until then does not fit an `int64_t`, whose
arithmetic is taken to wrap around.
-/

namespace QemuVmi.Timer

/-- A timer of `active_timers`. `timer_mod_ns_locked` stores no negative time. -/
structure QEMUTimer where
  /-- `cb` and `opaque` -/
  id : Nat
  expireTime : Int64
  nonneg : 0 ≤ expireTime

structure QEMUTimerList where
  /-- `clock->enabled` -/
  enabled : Bool
  activeTimers : List QEMUTimer

def timerExpiredNs (timer : QEMUTimer) (currentTime : Int64) : Bool :=
  timer.expireTime ≤ currentTime

def timerlistExpired (timerList : QEMUTimerList) (now : Int64) : Bool :=
  match timerList.activeTimers with
  | [] => false
  | t :: _ => t.expireTime < now

def timerlistDeadlineNs (timerList : QEMUTimerList) (now : Int64) : Int64 :=
  if !timerList.enabled then -1
  else match timerList.activeTimers with
    | [] => -1
    | t :: _ =>
      let delta := t.expireTime - now
      if delta ≤ 0 then 0 else delta

variable (cb : QEMUTimer → List QEMUTimer → List QEMUTimer)

/-- Rounds of the loop of `timerlist_run_timers`: the timers whose callbacks run. A callback may do
anything to the list. -/
def runTimersLoop (currentTime : Int64) : Nat → List QEMUTimer → List QEMUTimer
  | 0, _ => []
  | _ + 1, [] => []
  | n + 1, ts :: next =>
    if timerExpiredNs ts currentTime then ts :: runTimersLoop currentTime n (cb ts next) else []

def timerlistRunTimers (now : Int64) (n : Nat) (timerList : QEMUTimerList) : List QEMUTimer :=
  if !timerList.enabled then [] else runTimersLoop cb now n timerList.activeTimers

/-- The time left wraps around at most once, since the time of a timer is not negative. -/
lemma sub_le_zero_iff {t : QEMUTimer} {now : Int64} : t.expireTime - now ≤ 0 ↔
    t.expireTime ≤ now ∨ 2 ^ 63 ≤ t.expireTime.toInt - now.toInt := by
  have hnonneg := Int64.le_iff_toInt_le.mp t.nonneg
  have hlt := t.expireTime.toInt_lt
  have hnow := now.toInt_lt
  have hnow' := now.le_toInt
  rw [Int64.le_iff_toInt_le, Int64.le_iff_toInt_le, Int64.toInt_sub, Int.bmod_def]
  simp only [Int64.toInt_zero] at *
  omega

/-- The three agree on an enabled clock iff the first timer, if any, is not just expiring and not
too far. -/
theorem timerlist_agree_iff (timers : List QEMUTimer) (now : Int64) (n : Nat) :
    ((timerlistExpired ⟨true, timers⟩ now = true ↔ timerlistDeadlineNs ⟨true, timers⟩ now = 0) ∧
        (timerlistDeadlineNs ⟨true, timers⟩ now = 0 ↔
          timerlistRunTimers cb now (n + 1) ⟨true, timers⟩ ≠ [])) ↔
      ∀ t ∈ timers.head?, t.expireTime ≠ now ∧ t.expireTime.toInt - now.toInt < 2 ^ 63 := by
  cases timers with
  | nil => simp [timerlistExpired, timerlistDeadlineNs, timerlistRunTimers, runTimersLoop]
  | cons t next =>
    have hdeadline : timerlistDeadlineNs ⟨true, t :: next⟩ now = 0 ↔ t.expireTime - now ≤ 0 := by
      by_cases h : t.expireTime - now ≤ 0
      · simp [timerlistDeadlineNs, h]
      · have hne : t.expireTime - now ≠ 0 := fun h0 => h (by rw [h0]; decide)
        simp [timerlistDeadlineNs, h, hne]
    have hrun : timerlistRunTimers cb now (n + 1) ⟨true, t :: next⟩ ≠ [] ↔ t.expireTime ≤ now := by
      simp [timerlistRunTimers, runTimersLoop, timerExpiredNs]
    have hexpired : timerlistExpired ⟨true, t :: next⟩ now = true ↔ t.expireTime < now := by
      simp [timerlistExpired]
    rw [hdeadline, hrun, hexpired, sub_le_zero_iff]
    simp only [List.head?_cons, Option.mem_some_iff, forall_eq']
    rw [Int64.le_iff_toInt_le, Int64.lt_iff_toInt_lt, ne_eq, ← Int64.toInt_inj]
    omega

theorem timerlist_disagree_at_expiry :
    ∃ timers now, timerlistExpired ⟨true, timers⟩ now = false ∧
      timerlistDeadlineNs ⟨true, timers⟩ now = 0 ∧
      timerlistRunTimers (fun _ next => next) now 1 ⟨true, timers⟩ ≠ [] :=
  ⟨[⟨0, 5, by decide⟩], 5, by decide, by decide, List.cons_ne_nil _ _⟩

end QemuVmi.Timer
