import Mathlib

/-!
# Singly linked chains

A store of nodes with one link each, as a function from addresses to optional
addresses. `IsChain link p l` says that the links lead from `p` through the
addresses of `l`, in this order, to a null link.

Results:
1. `IsChain.head`, `IsChain.unique`: the pointer and the links determine the chain.
2. `IsChain.push`: linking a new node behind the last one appends it.
3. `IsChain.pop`: following the first link removes the first node, also when its
   own link is then cleared.
-/

namespace LinkedChain

open Function

variable {α : Type*}

/-- The links lead from `p` through `l` to null. -/
def IsChain (link : α → Option α) : Option α → List α → Prop
  | p, [] => p = none
  | p, a :: l => p = some a ∧ IsChain link (link a) l

variable {link link' : α → Option α} {p : Option α} {l l' : List α}

lemma IsChain.head (h : IsChain link p l) : p = l.head? := by
  cases l with
  | nil => exact h
  | cons a l => exact h.1

lemma IsChain.unique (h : IsChain link p l) (h' : IsChain link p l') : l = l' := by
  induction l generalizing p l' with
  | nil =>
    cases l' with
    | nil => rfl
    | cons b l' => cases h.symm.trans h'.1
  | cons a l ih =>
    cases l' with
    | nil => cases h.1.symm.trans h'
    | cons b l' =>
      obtain rfl := Option.some.inj (h.1.symm.trans h'.1)
      rw [ih h.2 h'.2]

lemma IsChain.congr (hlink : ∀ a ∈ l, link' a = link a) (h : IsChain link p l) :
    IsChain link' p l := by
  induction l generalizing p with
  | nil => exact h
  | cons a l ih =>
    refine ⟨h.1, ?_⟩
    rw [hlink a List.mem_cons_self]
    exact ih (fun b hb => hlink b (List.mem_cons_of_mem a hb)) h.2

lemma isChain_singleton {a : α} (ha : link a = none) : IsChain link (some a) [a] := ⟨rfl, ha⟩

variable [DecidableEq α]

/-- A node whose link is null, linked behind the last node. -/
lemma IsChain.push {a t : α} (h : IsChain link p l) (hl : l.Nodup) (ht : l.getLast? = some t)
    (ha : link a = none) (hmem : a ∉ l) : IsChain (update link t (some a)) p (l ++ [a]) := by
  induction l generalizing p with
  | nil => cases ht
  | cons b l ih =>
    have hat : a ≠ t := fun hat => hmem (hat ▸ List.mem_of_getLast? ht)
    refine ⟨h.1, ?_⟩
    cases l with
    | nil =>
      obtain rfl : b = t := Option.some.inj ht
      rw [update_self]
      exact isChain_singleton (by rw [update_of_ne hat, ha])
    | cons c l =>
      rw [List.getLast?_cons_cons] at ht
      have hbt : b ≠ t := fun hbt => (List.nodup_cons.mp hl).1 (hbt ▸ List.mem_of_getLast? ht)
      rw [update_of_ne hbt]
      exact ih h.2 (List.nodup_cons.mp hl).2 ht fun hm => hmem (List.mem_cons_of_mem b hm)

/-- The chain without its first node, whose link is cleared. -/
lemma IsChain.pop {a : α} (h : IsChain link p (a :: l)) (ha : a ∉ l) :
    IsChain (update link a none) (link a) l :=
  IsChain.congr (fun b hb => update_of_ne (fun hba : b = a => ha (hba ▸ hb)) _ _) h.2

end LinkedChain
