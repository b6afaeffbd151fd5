import Mathlib

/-!
# Radix trees that skip levels

A radix tree with fan-out `w`. The digit `l` of an index is `index / w ^ l % w`. A node that
skips `n` levels goes from level `l` to level `l - n`, and the digit of that level selects the
child. The digits of the levels in between are not looked at.

A node with one child that is not empty can be left out: the child takes its place and skips the
levels of both. Where nothing was found before, something else of the tree may be found then,
and everywhere else what is found stays the same (`Shrinks`).

Results:
1. `Levelled.find_isSome`: a search in a tree of at most `l` levels ends at a leaf, or at nothing.
2. `Shrinks.trans`, `Shrinks.node`, `Shrinks.merge`: shrinking a tree step by step.
-/

namespace SkipTree

open Nat

inductive Tree (β : Type*) (w : Nat)
  | empty
  | leaf (b : β)
  | node (skip : Nat) (child : Fin w → Tree β w)

variable {β : Type*} {w : Nat} [NeZero w]

/-- The digit of level `l`. -/
def digit (w : Nat) [NeZero w] (l index : Nat) : Fin w := Fin.ofNat w (index / w ^ l)

/-- What is at an index: a leaf or nothing. There is no result if a node skips more levels than
there are, or if there is nothing where there are no more levels. -/
def Tree.find : Tree β w → Nat → Nat → Option (Option β)
  | .empty, l, _ => if 1 ≤ l then some none else none
  | .leaf b, _, _ => some (some b)
  | .node skip child, l, index =>
      if skip ≤ l then (child (digit w (l - skip) index)).find (l - skip) index else none

/-- A tree of at most `l` levels. -/
def Levelled : Nat → Tree β w → Prop
  | l, .empty => 1 ≤ l
  | _, .leaf _ => True
  | l, .node skip child => 1 ≤ skip ∧ skip ≤ l ∧ ∀ i, Levelled (l - skip) (child i)

variable {l skip : Nat} {t : Tree β w}

lemma find_node (h : skip ≤ l) (child : Fin w → Tree β w) (index : Nat) :
    (Tree.node skip child).find l index = (child (digit w (l - skip) index)).find (l - skip) index :=
  if_pos h

lemma Levelled.find_isSome (h : Levelled l t) (index : Nat) : ∃ r, t.find l index = some r := by
  induction t generalizing l with
  | empty => exact ⟨none, if_pos h⟩
  | leaf b => exact ⟨some b, rfl⟩
  | node skip child ih =>
    rw [find_node h.2.1]
    exact ih _ (h.2.2 _)

lemma digit_congr {m index index' : Nat} (hl : l < m) (h : index % w ^ m = index' % w ^ m) :
    digit w l index = digit w l index' := by
  have hdigit : ∀ n, n / w ^ l % w = n % w ^ m / w ^ l % w := by
    intro n
    obtain ⟨k, rfl⟩ := Nat.exists_eq_add_of_lt hl
    rw [show w ^ (l + k + 1) = w ^ l * (w * w ^ k) by ring, mod_mul_right_div_self,
      mod_mul_right_mod]
  apply Fin.ext
  change index / w ^ l % w = index' / w ^ l % w
  rw [hdigit index, hdigit index', h]

lemma Levelled.find_congr (ht : Levelled l t) {index index' : Nat}
    (h : index % w ^ l = index' % w ^ l) : t.find l index = t.find l index' := by
  induction t generalizing l with
  | empty | leaf b => rfl
  | node skip child ih =>
    obtain ⟨hpos, hle, hchild⟩ := ht
    have hlow : index % w ^ (l - skip) = index' % w ^ (l - skip) := by
      have hdvd : w ^ (l - skip) ∣ w ^ l := pow_dvd_pow w (sub_le l skip)
      rw [← mod_mod_of_dvd index hdvd, h, mod_mod_of_dvd index' hdvd]
    rw [find_node hle, find_node hle, digit_congr (by omega) h]
    exact ih _ (hchild _) hlow

lemma exists_index (l index : Nat) (i : Fin w) :
    ∃ index', digit w l index' = i ∧ index' % w ^ l = index % w ^ l := by
  have hpos : 0 < w ^ l := Nat.pow_pos (NeZero.pos w)
  refine ⟨i * w ^ l + index % w ^ l, Fin.ext ?_, ?_⟩
  · change (i * w ^ l + index % w ^ l) / w ^ l % w = i
    rw [mul_comm, mul_add_div hpos, div_eq_of_lt (mod_lt _ hpos), add_zero, mod_eq_of_lt i.isLt]
  · rw [mul_comm, mul_add_mod, mod_mod]

/-- The tree `t'` finds what `t` does. Only where `t` finds nothing, it may find something that
`t` has elsewhere. -/
structure Shrinks (l : Nat) (t t' : Tree β w) : Prop where
  levelled : Levelled l t'
  find : ∀ index, t'.find l index = t.find l index ∨
    (t.find l index = some none ∧ ∃ index', t'.find l index = t.find l index')

lemma Shrinks.refl (h : Levelled l t) : Shrinks l t t :=
  ⟨h, fun _ => .inl rfl⟩

lemma Shrinks.trans {t' t'' : Tree β w} (h : Shrinks l t t') (h' : Shrinks l t' t'') :
    Shrinks l t t'' := by
  refine ⟨h'.levelled, fun index => ?_⟩
  have hsome : ∀ index, ∃ index', t'.find l index = t.find l index' := by
    intro index
    rcases h.find index with heq | ⟨-, index', heq⟩
    · exact ⟨index, heq⟩
    · exact ⟨index', heq⟩
  rcases h'.find index with heq | ⟨hnone, index', heq⟩
  · rw [heq]
    exact h.find index
  refine .inr ⟨?_, ?_⟩
  · rcases h.find index with heq' | ⟨hnone', -⟩
    · exact heq'.symm.trans hnone
    · exact hnone'
  · obtain ⟨index'', heq''⟩ := hsome index'
    exact ⟨index'', heq.trans heq''⟩

/-- The children of a node shrink. -/
lemma Shrinks.node {child child' : Fin w → Tree β w} (hpos : 1 ≤ skip) (hle : skip ≤ l)
    (hlevelled : ∀ i, Levelled (l - skip) (child i))
    (h : ∀ i, Shrinks (l - skip) (child i) (child' i)) :
    Shrinks l (.node skip child) (.node skip child') := by
  refine ⟨⟨hpos, hle, fun i => (h i).levelled⟩, fun index => ?_⟩
  rw [find_node hle, find_node hle]
  rcases (h (digit w (l - skip) index)).find index with heq | ⟨hnone, index', heq⟩
  · exact .inl heq
  refine .inr ⟨hnone, ?_⟩
  -- the index below the same child that has the lower digits of `index'`
  obtain ⟨index'', hdigit, hlow⟩ := exists_index (l - skip) index' (digit w (l - skip) index)
  refine ⟨index'', ?_⟩
  rw [heq, find_node hle, hdigit, (hlevelled _).find_congr hlow]

/-- A tree in the place of a node of which it is the only child: a node skips the levels of
both. -/
def absorb (skip : Nat) : Tree β w → Tree β w
  | .empty => .empty
  | .leaf b => .leaf b
  | .node skip' child => .node (skip + skip') child

lemma find_absorb (hle : skip ≤ l) (ht : Levelled (l - skip) t) (index : Nat) :
    (absorb skip t).find l index = t.find (l - skip) index := by
  cases t with
  | empty => exact (if_pos (le_trans ht (sub_le l skip))).trans (if_pos ht).symm
  | leaf b => rfl
  | node skip' child =>
    have hle' := ht.2.1
    rw [absorb, find_node (by omega), find_node hle', Nat.sub_sub]

omit [NeZero w] in
lemma levelled_absorb (hle : skip ≤ l) (ht : Levelled (l - skip) t) :
    Levelled l (absorb skip t) := by
  cases t with
  | empty => exact le_trans ht (sub_le l skip)
  | leaf b => trivial
  | node skip' child =>
    obtain ⟨hpos, hle', hchild⟩ := ht
    refine ⟨by omega, by omega, fun i => ?_⟩
    rw [← Nat.sub_sub]
    exact hchild i

/-- A node with one child that is not empty. -/
lemma Shrinks.merge {child : Fin w → Tree β w} (hle : skip ≤ l)
    (hlevelled : ∀ i, Levelled (l - skip) (child i)) {i : Fin w}
    (honly : ∀ j, j ≠ i → child j = .empty) :
    Shrinks l (.node skip child) (absorb skip (child i)) := by
  refine ⟨levelled_absorb hle (hlevelled i), fun index => ?_⟩
  rw [find_absorb hle (hlevelled i), find_node hle]
  by_cases hdigit : digit w (l - skip) index = i
  · exact .inl (by rw [hdigit])
  have hempty := hlevelled (digit w (l - skip) index)
  rw [honly _ hdigit] at hempty ⊢
  refine .inr ⟨if_pos hempty, ?_⟩
  obtain ⟨index', hdigit', hlow⟩ := exists_index (l - skip) index i
  refine ⟨index', ?_⟩
  rw [find_node hle, hdigit', (hlevelled i).find_congr hlow]

end SkipTree
