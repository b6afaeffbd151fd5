import Mathlib

/-!
# Folds that can fail

Folds over a list in `Option`: how the results of two folds compare when their steps do.
-/

namespace OptionFold

open List

variable {α σ : Type*} {f g : σ → α → Option σ} {p : α → Bool} {l : List α} {s t : σ}

lemma foldlM_cons_eq_some {a : α} :
    (a :: l).foldlM f s = some t ↔ ∃ s', f s a = some s' ∧ l.foldlM f s' = some t := by
  rw [foldlM_cons]
  exact Option.bind_eq_some_iff

lemma foldlM_range_succ_eq_some {f : σ → Nat → Option σ} {n : Nat} :
    (List.range (n + 1)).foldlM f s = some t ↔
      ∃ s', (List.range n).foldlM f s = some s' ∧ f s' n = some t := by
  rw [range_succ, foldlM_append]
  refine Option.bind_eq_some_iff.trans ?_
  refine exists_congr fun s' => and_congr_right fun _ => ?_
  rw [foldlM_cons_eq_some]
  constructor
  · rintro ⟨s'', hstep, hrest⟩
    exact Option.some.inj hrest ▸ hstep
  · exact fun hstep => ⟨t, hstep, rfl⟩

lemma foldlM_invariant {motive : σ → Prop} (hf : l.foldlM f s = some t)
    (hstep : ∀ a ∈ l, ∀ s t, motive s → f s a = some t → motive t) (h : motive s) : motive t := by
  induction l generalizing s with
  | nil => exact Option.some.inj hf ▸ h
  | cons a l ih =>
    obtain ⟨s', hfirst, hrest⟩ := foldlM_cons_eq_some.mp hf
    exact ih hrest (fun b hb => hstep b (mem_cons_of_mem a hb))
      (hstep a mem_cons_self s s' h hfirst)

lemma foldlM_mono (h : ∀ a ∈ l, ∀ s t, f s a = some t → g s a = some t)
    (hf : l.foldlM f s = some t) : l.foldlM g s = some t := by
  induction l generalizing s with
  | nil => exact hf
  | cons a l ih =>
    obtain ⟨s', hfirst, hrest⟩ := foldlM_cons_eq_some.mp hf
    exact foldlM_cons_eq_some.mpr ⟨s', h a mem_cons_self s s' hfirst,
      ih (fun b hb => h b (mem_cons_of_mem a hb)) hrest⟩

lemma foldlM_filter (h : ∀ a ∈ l, p a = false → ∀ s t, f s a = some t → t = s)
    (hf : l.foldlM f s = some t) : (l.filter p).foldlM f s = some t := by
  rw [List.foldlM_filter]
  refine foldlM_mono (fun a ha s t hstep => ?_) hf
  split
  · exact hstep
  next hp => exact congrArg some (h a ha (by simpa using hp) s t hstep).symm

lemma foldlM_of_filter (h : ∀ a ∈ l, p a = false → ∀ s, f s a = some s)
    (hf : (l.filter p).foldlM f s = some t) : l.foldlM f s = some t := by
  rw [List.foldlM_filter] at hf
  refine foldlM_mono (fun a ha s t hstep => ?_) hf
  split at hstep
  · exact hstep
  next hp =>
    cases hstep
    exact h a ha (by simpa using hp) s

lemma mapM_eq_some {β : Type*} {f : α → Option β} {r : List β} (h : l.mapM f = some r) :
    l.map f = r.map some := by
  induction l generalizing r with
  | nil => cases h; rfl
  | cons a l ih =>
    rw [mapM_cons] at h
    obtain ⟨b, hb, h⟩ := Option.bind_eq_some_iff.mp h
    obtain ⟨r', hr', h⟩ := Option.bind_eq_some_iff.mp h
    cases h
    rw [map_cons, map_cons, hb, ih hr']

end OptionFold
