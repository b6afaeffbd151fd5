import Mathlib

/-!
# A log seen through a ring of slots

Entries are appended to a log for ever, and a ring of `c` slots holds a window of it:
entry `k` of the log is in slot `k % c` as long as it is in the window.
-/

namespace RingWindow

open Function

variable {α : Type*} {c lo : Nat} {slots : Nat → α} {log : List α}

/-- The entries of the log from `lo` on are in their slots. -/
def Window (c : Nat) (slots : Nat → α) (log : List α) (lo : Nat) : Prop :=
  ∀ k, lo ≤ k → k < log.length → log[k]? = some (slots (k % c))

lemma mod_ne_mod {i j : Nat} (hlt : i < j) (hnear : j < i + c) : i % c ≠ j % c := by
  intro heq
  have hdvd : c ∣ j - i := Nat.dvd_of_mod_eq_zero (Nat.sub_mod_eq_zero_of_mod_eq heq.symm)
  have := Nat.le_of_dvd (Nat.sub_pos_of_lt hlt) hdvd
  omega

section
variable (h : Window c slots log lo)
include h

lemma Window.store (hroom : log.length < lo + c) (e : α) :
    Window c (update slots (log.length % c) e) log lo := by
  intro k hlo hk
  rw [update_of_ne (mod_ne_mod hk (by omega)), h k hlo hk]

lemma Window.append : Window c slots (log ++ [slots (log.length % c)]) lo := by
  intro k hlo hk
  rw [List.length_append, List.length_singleton] at hk
  rcases Nat.lt_succ_iff_lt_or_eq.mp hk with hlt | rfl
  · rw [List.getElem?_append_left hlt, h k hlo hlt]
  · exact List.getElem?_concat_length

lemma Window.mono {hi : Nat} (hle : lo ≤ hi) : Window c slots log hi :=
  fun k hk => h k (Nat.le_trans hle hk)

lemma Window.read :
    (List.range (log.length - lo)).map (fun k => slots ((lo + k) % c)) = log.drop lo := by
  apply List.ext_getElem?
  intro k
  rw [List.getElem?_drop, List.getElem?_map]
  by_cases hk : k < log.length - lo
  · rw [List.getElem?_range hk, Option.map_some, h (lo + k) (Nat.le_add_right lo k) (by omega)]
  · rw [List.getElem?_eq_none (by rw [List.length_range]; omega), Option.map_none,
      List.getElem?_eq_none (by omega)]
end

end RingWindow
