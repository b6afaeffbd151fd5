import Mathlib

/-!
# Programs that ask an environment

A program that reads what somebody else may change at any time. It is a tree that branches over every
answer, so that what holds on every path (`Always`) holds whatever the environment is and however it
changes between two questions. `run` follows one path.

Results:
1. `always_bind`, `always_word`, `Always.mono`: the rules for what holds on every path.
2. `Always.run`: what holds on every path holds of a run.
-/

namespace QemuVmi.Interaction

inductive Prog (Req Err α : Type) where
  | ret (value : α)
  | stop (err : Err)
  | ask (req : Req) (next : Nat → Prog Req Err α)

namespace Prog

variable {Req Err α β : Type}

def bind : Prog Req Err α → (α → Prog Req Err β) → Prog Req Err β
  | .ret value, f => f value
  | .stop err, _ => .stop err
  | .ask req next, f => .ask req fun n => bind (next n) f

instance : Monad (Prog Req Err) where
  pure := .ret
  bind := bind

/-- The answer to a question, as a number below `size`. -/
def word (size : Nat) (req : Req) : Prog Req Err Nat := .ask req fun n => .ret (n % size)

/-- A run in an environment that may look at everything it was asked: the questions, and the value or
the error at the end. -/
def run (env : List Req → Req → Nat) : Prog Req Err α → List Req → List Req × Except Err α
  | .ret value, log => (log, .ok value)
  | .stop err, log => (log, .error err)
  | .ask req next, log => run env (next (env log req)) (log ++ [req])

def Always : Prog Req Err α → (List Req → Except Err α → Prop) → Prop
  | .ret value, P => P [] (.ok value)
  | .stop err, P => P [] (.error err)
  | .ask req next, P => ∀ n, Always (next n) fun log out => P (req :: log) out

def Then (P : List Req → Except Err β → Prop) (f : α → Prog Req Err β) (log : List Req)
    (out : Except Err α) : Prop :=
  match out with
  | .ok value => Always (f value) fun log' out' => P (log ++ log') out'
  | .error err => P log (.error err)

variable {p : Prog Req Err α}

lemma Always.mono : ∀ {P Q : List Req → Except Err α → Prop},
    Always p P → (∀ log out, P log out → Q log out) → Always p Q := by
  induction p with
  | ret value | stop err =>
    intro P Q h hPQ
    exact hPQ _ _ h
  | ask req next ih =>
    intro P Q h hPQ n
    exact ih n (h n) fun log out => hPQ (req :: log) out

lemma always_bind (p : Prog Req Err α) (f : α → Prog Req Err β) :
    ∀ {P : List Req → Except Err β → Prop}, Always (p >>= f) P ↔ Always p (Then P f) := by
  induction p with
  | ret value | stop err =>
    intro P
    exact Iff.rfl
  | ask req next ih =>
    intro P
    refine forall_congr' fun n => ?_
    exact ih n

/-- The rule for a question in front of the rest. -/
@[simp] lemma always_word {size : Nat} {req : Req} {f : Nat → Prog Req Err β}
    {P : List Req → Except Err β → Prop} : Always (word size req >>= f) P ↔
      ∀ n, Always (f (n % size)) fun log out => P (req :: log) out := Iff.rfl

lemma Always.bind {f : α → Prog Req Err β} {P : List Req → Except Err α → Prop}
    {Q : List Req → Except Err β → Prop} (hp : Always p P)
    (hok : ∀ log value, P log (.ok value) → Always (f value) fun log' out => Q (log ++ log') out)
    (herr : ∀ log err, P log (.error err) → Q log (.error err)) : Always (p >>= f) Q := by
  refine (always_bind p f).mpr (hp.mono fun log out hP => ?_)
  cases out with
  | ok value => exact hok log value hP
  | error err => exact herr log err hP

lemma Always.run (env : List Req → Req → Nat) :
    ∀ {P : List Req → Except Err α → Prop} (log : List Req), Always p P →
      ∃ log', (p.run env log).1 = log ++ log' ∧ P log' (p.run env log).2 := by
  induction p with
  | ret value | stop err =>
    intro P log h
    exact ⟨[], (List.append_nil log).symm, h⟩
  | ask req next ih =>
    intro P log h
    obtain ⟨log', hlog, hP⟩ := ih (env log req) (log ++ [req]) (h (env log req))
    exact ⟨req :: log', by rw [Prog.run, hlog, List.append_assoc, List.singleton_append], hP⟩

lemma Always.run_nil (env : List Req → Req → Nat) {P : List Req → Except Err α → Prop}
    (h : Always p P) : P (p.run env []).1 (p.run env []).2 := by
  obtain ⟨log, hlog, hP⟩ := h.run env []
  rw [List.nil_append] at hlog
  rwa [hlog]

end Prog

end QemuVmi.Interaction
