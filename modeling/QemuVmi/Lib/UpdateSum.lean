import Mathlib

/-!
# Sums over a table

A table is a function from indices. These are sums over its entries when one entry is replaced,
and what a bound on the sum says about the entries.
-/

namespace UpdateSum

open Finset

variable {α : Type*} {n k : Nat} {table : Nat → α} {f : α → Nat}

/-- One entry is exchanged: the sum loses the old term and gains the new one. -/
lemma sum_update_add (hk : k < n) (table : Nat → α) (a : α) (f : α → Nat) :
    ∑ i ∈ range n, f (Function.update table k a i) + f (table k) =
      ∑ i ∈ range n, f (table i) + f a := by
  have hmem : k ∈ range n := Finset.mem_range.mpr hk
  rw [← add_sum_erase _ _ hmem, ← add_sum_erase _ (fun i => f (table i)) hmem]
  have hrest : ∑ i ∈ (range n).erase k, f (Function.update table k a i) =
      ∑ i ∈ (range n).erase k, f (table i) := by
    refine sum_congr rfl fun i hi => ?_
    rw [Function.update_of_ne (ne_of_mem_erase hi)]
  rw [hrest, Function.update_self]
  omega

lemma le_sum (hk : k < n) (f : Nat → Nat) : f k ≤ ∑ i ∈ range n, f i :=
  single_le_sum (fun i _ => Nat.zero_le (f i)) (Finset.mem_range.mpr hk)

end UpdateSum
