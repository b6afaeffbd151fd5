import Mathlib

/-!
# While loops

`while (cond s) s = body s`, run with fuel. `Ends cond body s t` says that the
loop started in `s` leaves in `t` for some amount of fuel, so a loop that never
leaves has no `t`.

Results:
1. `ends_iff`: the loop ends in `t` exactly when `t` is the first iterate of the
   body at which the condition fails.
2. `Ends.unique`: a loop ends in one state at most.
3. `Ends.invariant`: the rule for an invariant of the body.
4. `not_ends_of_invariant`: an invariant that keeps the condition true keeps the
   loop from ending.
5. `whileLoop_advance`: a loop that counts two numbers up in steps of one size stops at
   the first place at which its condition fails.
6. `cursor_ends`, `periodic_of_ends`: a loop that follows a pointer until it meets
   the head ends exactly when the head is a periodic point of the successor
   function, and then after as many iterations as its period has points.
-/

namespace WhileLoop

open Nat

variable {σ : Type*}

/-- The loop with fuel: `none` when the fuel runs out first. -/
def whileLoop (cond : σ → Bool) (body : σ → σ) : Nat → σ → Option σ
  | 0, _ => none
  | fuel + 1, s => if cond s then whileLoop cond body fuel (body s) else some s

/-- The loop started in `s` ends in `t`. -/
def Ends (cond : σ → Bool) (body : σ → σ) (s t : σ) : Prop :=
  ∃ fuel, whileLoop cond body fuel s = some t

variable {cond : σ → Bool} {body : σ → σ} {s t : σ}

lemma whileLoop_eq_some_iff {fuel : Nat} :
    whileLoop cond body fuel s = some t ↔ ∃ k, k < fuel ∧ (∀ j, j < k → cond (body^[j] s) = true) ∧
        cond (body^[k] s) = false ∧ t = body^[k] s := by
  induction fuel generalizing s with
  | zero => simp [whileLoop]
  | succ fuel ih =>
    rw [whileLoop]
    cases hc : cond s with
    | false =>
      simp only [Bool.false_eq_true, ↓reduceIte, Option.some.injEq]
      constructor
      · rintro rfl
        exact ⟨0, succ_pos fuel, fun j hj => absurd hj (not_lt_zero j), hc, rfl⟩
      rintro ⟨k, _, hall, _, rfl⟩
      cases k with
      | zero => rfl
      | succ k =>
        have h0 := hall 0 (succ_pos k)
        rw [Function.iterate_zero, id_eq, hc] at h0
        cases h0
    | true =>
      simp only [↓reduceIte]
      rw [ih]
      constructor
      · rintro ⟨k, hk, hall, hexit, rfl⟩
        refine ⟨k + 1, succ_lt_succ hk, ?_, hexit, rfl⟩
        intro j hj
        cases j with
        | zero => exact hc
        | succ j => exact hall j (lt_of_succ_lt_succ hj)
      rintro ⟨k, hk, hall, hexit, rfl⟩
      cases k with
      | zero =>
        rw [Function.iterate_zero, id_eq, hc] at hexit
        cases hexit
      | succ k =>
        exact ⟨k, lt_of_succ_lt_succ hk, fun j hj => hall (j + 1) (succ_lt_succ hj), hexit, rfl⟩

lemma ends_iff :
    Ends cond body s t ↔ ∃ k, (∀ j, j < k → cond (body^[j] s) = true) ∧ cond (body^[k] s) = false ∧
        t = body^[k] s := by
  constructor
  · rintro ⟨fuel, h⟩
    obtain ⟨k, _, hall, hexit, ht⟩ := whileLoop_eq_some_iff.mp h
    exact ⟨k, hall, hexit, ht⟩
  · rintro ⟨k, hall, hexit, ht⟩
    exact ⟨k + 1, whileLoop_eq_some_iff.mpr ⟨k, lt_succ_self k, hall, hexit, ht⟩⟩

lemma Ends.unique {u : σ} (ht : Ends cond body s t) (hu : Ends cond body s u) : t = u := by
  obtain ⟨k, hk, hkexit, rfl⟩ := ends_iff.mp ht
  obtain ⟨l, hl, hlexit, rfl⟩ := ends_iff.mp hu
  rcases lt_trichotomy k l with h | h | h
  · rw [hl k h] at hkexit
    cases hkexit
  · rw [h]
  · rw [hk l h] at hlexit
    cases hlexit

/-- The rule for an invariant: what holds before the loop and is kept by every
iteration holds after it, where the condition fails. -/
lemma Ends.invariant {I : σ → Prop} (h : Ends cond body s t) (hs : I s)
    (hbody : ∀ u, I u → cond u = true → I (body u)) : I t ∧ cond t = false := by
  obtain ⟨k, hall, hexit, rfl⟩ := ends_iff.mp h
  refine ⟨?_, hexit⟩
  clear hexit h
  induction k with
  | zero => exact hs
  | succ k ih =>
    rw [Function.iterate_succ_apply']
    exact hbody _ (ih fun j hj => hall j (lt_succ_of_lt hj)) (hall k (lt_succ_self k))

lemma not_ends_of_invariant {I : σ → Prop} (hs : I s)
    (hbody : ∀ u, I u → I (body u)) (hcond : ∀ u, I u → cond u = true) (t : σ) :
    ¬ Ends cond body s t := by
  intro h
  obtain ⟨hI, hexit⟩ := h.invariant hs (fun u hu _ => hbody u hu)
  rw [hcond t hI] at hexit
  cases hexit

lemma whileLoop_mono {m n : Nat} (hmn : m ≤ n)
    (h : whileLoop cond body m s = some t) : whileLoop cond body n s = some t := by
  obtain ⟨k, hk, hall, hexit, ht⟩ := whileLoop_eq_some_iff.mp h
  exact whileLoop_eq_some_iff.mpr ⟨k, hk.trans_le hmn, hall, hexit, ht⟩

lemma whileLoop_advance {go : Nat → Bool} {step fuel i len m : Nat} (hm : m < fuel)
    (hstop : go (i + step * m) = false) :
    ∃ k, k ≤ m ∧ whileLoop (fun s => go s.1) (fun s => (s.1 + step, s.2 + step)) fuel (i, len) =
        some (i + step * k, len + step * k) ∧
      (∀ j, j < k → go (i + step * j) = true) ∧ go (i + step * k) = false := by
  have hiter : ∀ k, (fun s : Nat × Nat => (s.1 + step, s.2 + step))^[k] (i, len) =
      (i + step * k, len + step * k) := by
    intro k
    induction k with
    | zero => rfl
    | succ k ih => rw [Function.iterate_succ_apply', ih, mul_succ, add_assoc, add_assoc]
  have hex : ∃ k, go (i + step * k) = false := ⟨m, hstop⟩
  have hle : Nat.find hex ≤ m := Nat.find_min' hex hstop
  have hgo : ∀ j, j < Nat.find hex → go (i + step * j) = true := fun j hj =>
    Bool.eq_true_of_not_eq_false (Nat.find_min hex hj)
  refine ⟨Nat.find hex, hle, ?_, hgo, Nat.find_spec hex⟩
  refine whileLoop_eq_some_iff.mpr
    ⟨Nat.find hex, hle.trans_lt hm, fun j hj => ?_, ?_, (hiter _).symm⟩
  · rw [hiter]
    exact hgo j hj
  · rw [hiter]
    exact Nat.find_spec hex

section
open Function

variable {α : Type*} [DecidableEq α] {cur : σ → α} {next : α → α} {head : α} {s : σ}
  (hcond : ∀ u, cond u = decide (cur u ≠ head))
  (hbody : ∀ u, cur u ≠ head → cur (body u) = next (cur u))
  (hs : cur s = next head)
include hcond hbody hs

omit [DecidableEq α] hcond in
lemma cur_iterate {k : Nat} (hk : ∀ j, j < k → next^[j + 1] head ≠ head) :
    cur (body^[k] s) = next^[k + 1] head := by
  induction k with
  | zero => exact hs
  | succ k ih =>
    have hcur := ih fun j hj => hk j (lt_succ_of_lt hj)
    have hne : cur (body^[k] s) ≠ head := hcur ▸ hk k (lt_succ_self k)
    rw [iterate_succ_apply', hbody _ hne, hcur, ← iterate_succ_apply' next]

/-- When the orbit comes back to the head, the loop has visited every other point
of it once. -/
lemma cursor_ends (hper : head ∈ periodicPts next) :
    whileLoop cond body (minimalPeriod next head) s =
      some (body^[minimalPeriod next head - 1] s) := by
  have hpos := minimalPeriod_pos_of_mem_periodicPts hper
  have hlast := Nat.sub_add_cancel hpos
  have hne : ∀ j, j < minimalPeriod next head - 1 → next^[j + 1] head ≠ head := fun j hj hback =>
    not_isPeriodicPt_of_pos_of_lt_minimalPeriod (succ_ne_zero j) (add_lt_of_lt_sub hj) hback
  refine whileLoop_eq_some_iff.mpr
    ⟨minimalPeriod next head - 1, sub_lt hpos one_pos, ?_, ?_, rfl⟩
  · intro j hj
    rw [hcond, cur_iterate hbody hs fun i hi => hne i (hi.trans hj)]
    exact decide_eq_true (hne j hj)
  · rw [hcond, cur_iterate hbody hs hne, hlast, iterate_minimalPeriod]
    exact decide_eq_false (fun h => h rfl)

/-- The loop ends only when the orbit comes back to the head. -/
lemma periodic_of_ends (h : Ends cond body s t) : head ∈ periodicPts next := by
  by_contra hper
  have hne : ∀ j, next^[j + 1] head ≠ head := fun j hback =>
    hper (mk_mem_periodicPts (succ_pos j) hback)
  obtain ⟨k, _, hexit, _⟩ := ends_iff.mp h
  rw [hcond, cur_iterate hbody hs fun j _ => hne j] at hexit
  exact hne k (not_not.mp (of_decide_eq_false hexit))
end

end WhileLoop
