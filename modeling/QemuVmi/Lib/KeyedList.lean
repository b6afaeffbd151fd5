import Mathlib

/-!
# Lists of records with a key

A list whose elements are found, replaced and removed by a key that no two of them share.
-/

namespace KeyedList

open List

variable {α κ : Type*} [DecidableEq κ] {key : α → κ} {l : List α} {a b : α} {k : κ}

/-- Replaces the element with the key of `a`. -/
def put (key : α → κ) (a : α) (l : List α) : List α := l.map fun b => if key b = key a then a else b

def get (key : α → κ) (k : κ) (l : List α) : Option α := l.find? fun b => key b = k

def remove (key : α → κ) (k : κ) (l : List α) : List α := l.filter fun b => key b ≠ k

lemma get_eq_some (h : get key k l = some a) : a ∈ l ∧ key a = k := by
  refine ⟨mem_of_find?_eq_some h, ?_⟩
  simpa using List.find?_some h

lemma mem_put (h : b ∈ put key a l) : b = a ∨ (b ∈ l ∧ key b ≠ key a) := by
  obtain ⟨c, hc, rfl⟩ := mem_map.mp h
  by_cases hkey : key c = key a
  · exact Or.inl (if_pos hkey)
  · rw [if_neg hkey]
    exact Or.inr ⟨hc, hkey⟩

@[simp] lemma keys_put : (put key a l).map key = l.map key := by
  rw [put, map_map]
  refine map_congr_left fun b _ => ?_
  by_cases hkey : key b = key a
  · simp [hkey]
  · simp [hkey]

lemma countP_put {p : α → Bool} (h : ∀ b ∈ l, key b = key a → p b = p a) :
    (put key a l).countP p = l.countP p := by
  rw [put, countP_map]
  refine countP_congr fun b hb => ?_
  by_cases hkey : key b = key a
  · simp [hkey, h b hb hkey]
  · simp [hkey]

lemma mem_remove : b ∈ remove key k l ↔ b ∈ l ∧ key b ≠ k := by simp [remove]

lemma keys_remove_sublist : ((remove key k l).map key).Sublist (l.map key) :=
  filter_sublist.map key

lemma countP_remove {p : α → Bool} (hnodup : (l.map key).Nodup) (ha : a ∈ l) :
    (remove key (key a) l).countP p + (if p a then 1 else 0) = l.countP p := by
  induction l with
  | nil => cases ha
  | cons b l ih =>
    rw [map_cons, nodup_cons] at hnodup
    rcases mem_cons.mp ha with rfl | ha
    · have hrest : remove key (key a) l = l := by
        refine filter_eq_self.mpr fun c hc => ?_
        have hne : key c ≠ key a := fun heq => hnodup.1 (mem_map.mpr ⟨c, hc, heq⟩)
        simpa using hne
      have hhead : remove key (key a) (a :: l) = l := by
        rw [← hrest]
        simp [remove]
      rw [hhead, countP_cons]
    · have hne : key b ≠ key a := fun heq => hnodup.1 (mem_map.mpr ⟨a, ha, heq.symm⟩)
      have hhead : remove key (key a) (b :: l) = b :: remove key (key a) l := by simp [remove, hne]
      rw [hhead, countP_cons, countP_cons, ← ih hnodup.2 ha]
      omega

end KeyedList
