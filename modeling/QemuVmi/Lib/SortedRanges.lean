import Mathlib

/-!
# Sorted lists of ranges

Lists whose elements stand for half-open ranges of integers, `lo r` to `hi r`. In a
sorted list the ranges are nonempty and each one ends before the next one starts, so
an address is in one of them at most.

Results:
1. `SortedFrom.lookup_eq_some_iff`: the range that is found is the one that contains
   the address.
-/

namespace SortedRanges

variable {ρ : Type*} (lo hi : ρ → Int)

/-- Sorted and nonempty ranges, none of which starts before `b`. -/
def SortedFrom : Int → List ρ → Prop
  | _, [] => True
  | b, r :: rs => b ≤ lo r ∧ lo r < hi r ∧ SortedFrom (hi r) rs

instance SortedFrom.decidable : (b : Int) → (l : List ρ) → Decidable (SortedFrom lo hi b l)
  | _, [] => isTrue trivial
  | b, r :: rs =>
      have := SortedFrom.decidable (hi r) rs
      inferInstanceAs (Decidable (b ≤ lo r ∧ lo r < hi r ∧ SortedFrom lo hi (hi r) rs))

def lookup (l : List ρ) (a : Int) : Option ρ := l.find? fun r => decide (lo r ≤ a ∧ a < hi r)

variable {lo hi} {l : List ρ} {a b c : Int} {r : ρ}

lemma lookup_cons (r : ρ) (rs : List ρ) (a : Int) :
    lookup lo hi (r :: rs) a = if lo r ≤ a ∧ a < hi r then some r else lookup lo hi rs a := by
  by_cases h : lo r ≤ a ∧ a < hi r
  · rw [if_pos h]
    exact List.find?_cons_of_pos (decide_eq_true h)
  · rw [if_neg h]
    exact List.find?_cons_of_neg (by simpa using h)

section
variable (h : SortedFrom lo hi b l)
include h

lemma SortedFrom.le_lo (hr : r ∈ l) : b ≤ lo r := by
  induction l generalizing b with
  | nil => cases hr
  | cons s rs ih =>
    obtain ⟨hb, hlt, hrest⟩ := h
    rcases List.mem_cons.mp hr with rfl | hr
    · exact hb
    · have := ih hrest hr
      omega

lemma SortedFrom.lo_lt_hi (hr : r ∈ l) : lo r < hi r := by
  induction l generalizing b with
  | nil => cases hr
  | cons s rs ih =>
    rcases List.mem_cons.mp hr with rfl | hr
    · exact h.2.1
    · exact ih h.2.2 hr

lemma SortedFrom.pairwise : l.Pairwise fun r s => hi r ≤ lo s := by
  induction l generalizing b with
  | nil => exact List.Pairwise.nil
  | cons s rs ih => exact List.pairwise_cons.mpr ⟨fun r hr => h.2.2.le_lo hr, ih h.2.2⟩

lemma SortedFrom.lookup_eq_none (ha : a < b) : lookup lo hi l a = none := by
  refine List.find?_eq_none.mpr fun r hr => ?_
  have := h.le_lo hr
  simp only [decide_eq_true_eq, not_and]
  omega

lemma SortedFrom.lookup_eq_some (hr : r ∈ l) (ha : lo r ≤ a ∧ a < hi r) :
    lookup lo hi l a = some r := by
  induction l generalizing b with
  | nil => cases hr
  | cons s rs ih =>
    rw [lookup_cons]
    rcases List.mem_cons.mp hr with rfl | hr
    · rw [if_pos ha]
    · have := h.2.2.le_lo hr
      rw [if_neg (by omega)]
      exact ih h.2.2 hr

lemma SortedFrom.lookup_eq_some_iff :
    lookup lo hi l a = some r ↔ r ∈ l ∧ lo r ≤ a ∧ a < hi r := by
  constructor
  · intro hfind
    exact ⟨List.mem_of_find?_eq_some hfind, by simpa using List.find?_some hfind⟩
  · exact fun hr => h.lookup_eq_some hr.1 hr.2
end

end SortedRanges
