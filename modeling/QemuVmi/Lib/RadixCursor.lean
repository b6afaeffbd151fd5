import Mathlib

/-!
# Cursors in a tree of summaries

A set of numbers, its leaves, is summarised by levels: the entry `n` of level `l`
stands for the leaves `m` with `m / W ^ (D - l) = n`, where `W` is the fan-out and
`D` the level of the leaves themselves.

A cursor enumerates the leaves in order. At depth `i` it has a path from the root
to one word, the word `pos` of level `i`; the word of level `j ≤ i` on this path is
`pos / W ^ (i - j)`. For each of these words it keeps the entries that are still to
be visited, `pending j`.

Results:
1. `summary_iff_leaf`: levels that each summarise the next one summarise the leaves.
2. `Cursor.ascend`, `Cursor.descend`: going up from a word that is done, and down
   into the lowest pending entry, change nothing about what is still to be visited.
3. `Cursor.drop`, `Drops.covers_iff`: leaves of the cursor's word are taken off, and all
   others come behind them.
4. `Cursor.mono`: leaves may be added anywhere, and removed below the bound `lo`.
5. `Starts.cursor`, `Starts.covers`: a cursor on the path to a number is to visit all
   leaves from there on.
-/

namespace RadixCursor

open Nat

variable {W D : Nat} {S : Nat → Prop} {lo i pos : Nat} {pending : Nat → Nat → Prop}

lemma summary_iff_leaf (hW : 0 < W) {level : Nat → Nat → Prop} {l : Nat}
    (hlink : ∀ k, l ≤ k → k < D → ∀ n, level k n ↔ ∃ b, b < W ∧ level (k + 1) (W * n + b))
    (hl : l ≤ D) (n : Nat) : level l n ↔ ∃ m, level D m ∧ m / W ^ (D - l) = n := by
  induction hd : D - l generalizing l n with
  | zero =>
    obtain rfl : l = D := by omega
    simp
  | succ d ih =>
    rw [hlink l (le_refl l) (by omega) n]
    constructor
    · rintro ⟨b, hb, hlevel⟩
      obtain ⟨m, hm, hdiv⟩ := (ih (fun k hk => hlink k (by omega)) (by omega) _ (by omega)).mp hlevel
      refine ⟨m, hm, ?_⟩
      rw [pow_succ, ← Nat.div_div_eq_div_mul, hdiv, mul_add_div hW, div_eq_of_lt hb, add_zero]
    · rintro ⟨m, hm, rfl⟩
      refine ⟨m / W ^ d % W, mod_lt _ hW, ?_⟩
      refine (ih (fun k hk => hlink k (by omega)) (by omega) _ (by omega)).mpr ⟨m, hm, ?_⟩
      rw [pow_succ, ← Nat.div_div_eq_div_mul, div_add_mod]

/-- The number `n` is below a pending entry of a cursor at depth `i`. -/
def Covers (W D : Nat) (pending : Nat → Nat → Prop) (i pos n : Nat) : Prop :=
  ∃ j b, j ≤ i ∧ b < W ∧ pending j b ∧ n / W ^ (D - j) = W * (pos / W ^ (i - j)) + b

/-- What a cursor keeps. Every pending entry has a leaf; on each level the pending
entries come behind the path; and nothing below `lo` is still to be visited. -/
structure Cursor (W D : Nat) (S : Nat → Prop) (lo : Nat) (pending : Nat → Nat → Prop) (i pos : Nat) :
    Prop where
  live : ∀ j b, j ≤ i → b < W → pending j b →
    ∃ n, S n ∧ n / W ^ (D - j) = W * (pos / W ^ (i - j)) + b
  behind : ∀ j b, j < i → b < W → pending j b → pos / W ^ (i - (j + 1)) % W < b
  above : ∀ n, Covers W D pending i pos n → lo ≤ n

lemma Cursor.mono {S' : Nat → Prop} (h : Cursor W D S lo pending i pos)
    (hkeep : ∀ n, lo ≤ n → S n → S' n) : Cursor W D S' lo pending i pos where
  live := by
    intro j b hj hb hpending
    obtain ⟨n, hn, hdiv⟩ := h.live j b hj hb hpending
    exact ⟨n, hkeep n (h.above n ⟨j, b, hj, hb, hpending, hdiv⟩) hn, hdiv⟩
  behind := h.behind
  above := h.above

variable {b j n : Nat}

lemma path_succ (hj : j ≤ i) : pos / W ^ (i + 1 - j) = pos / W / W ^ (i - j) := by
  rw [succ_sub hj, pow_succ', Nat.div_div_eq_div_mul]

lemma covers_ascend (hdone : ∀ b, b < W → ¬ pending (i + 1) b) (n : Nat) :
    Covers W D pending (i + 1) pos n ↔ Covers W D pending i (pos / W) n := by
  constructor
  · rintro ⟨j, b, hj, hb, hpending, hdiv⟩
    rcases hj.lt_or_eq with hlt | rfl
    · exact ⟨j, b, le_of_lt_succ hlt, hb, hpending, path_succ (le_of_lt_succ hlt) ▸ hdiv⟩
    · exact absurd hpending (hdone b hb)
  · rintro ⟨j, b, hj, hb, hpending, hdiv⟩
    exact ⟨j, b, le_succ_of_le hj, hb, hpending, (path_succ hj).symm ▸ hdiv⟩

/-- Going up from a word that is done. -/
lemma Cursor.ascend (h : Cursor W D S lo pending (i + 1) pos)
    (hdone : ∀ b, b < W → ¬ pending (i + 1) b) : Cursor W D S lo pending i (pos / W) where
  live := by
    intro j b hj hb hpending
    rw [← path_succ hj]
    exact h.live j b (le_succ_of_le hj) hb hpending
  behind := by
    intro j b hj hb hpending
    rw [← path_succ hj]
    exact h.behind j b (lt_succ_of_lt hj) hb hpending
  above := fun n hn => h.above n ((covers_ascend hdone n).mpr hn)

section
variable {pending' : Nat → Nat → Prop} {b₀ : Nat}

lemma path_entry (hW : 0 < W) (hb₀ : b₀ < W) (hj : j ≤ i) :
    (W * pos + b₀) / W ^ (i + 1 - j) = pos / W ^ (i - j) := by
  rw [path_succ hj, mul_add_div hW, div_eq_of_lt hb₀, add_zero]

lemma div_of_entry (hW : 0 < W) (hi : i < D) {c : Nat} (hc : c < W)
    (hdiv : n / W ^ (D - (i + 1)) = W * (W * pos + b₀) + c) : n / W ^ (D - i) = W * pos + b₀ := by
  rw [show D - i = D - (i + 1) + 1 by omega, pow_succ, ← Nat.div_div_eq_div_mul, hdiv,
    mul_add_div hW, div_eq_of_lt hc, add_zero]

/-- The lowest pending entry `b₀` is taken off its word, and the entries of the word
below it are pending instead. -/
structure Descends (W D : Nat) (S : Nat → Prop) (pending pending' : Nat → Nat → Prop)
    (i pos b₀ : Nat) : Prop where
  lt : b₀ < W
  entry : pending i b₀
  lowest : ∀ b, b < W → pending i b → b₀ ≤ b
  upper : ∀ j b, j < i → (pending' j b ↔ pending j b)
  rest : ∀ b, b < W → (pending' i b ↔ pending i b ∧ b ≠ b₀)
  next : ∀ c, c < W → (pending' (i + 1) c ↔
    ∃ n, S n ∧ n / W ^ (D - (i + 1)) = W * (W * pos + b₀) + c)

variable (hW : 0 < W) (hi : i < D) (hstep : Descends W D S pending pending' i pos b₀)
include hW hi hstep

lemma Descends.covers_of (hn : Covers W D pending' (i + 1) (W * pos + b₀) n) :
    Covers W D pending i pos n := by
  obtain ⟨j, b, hj, hb, hpending, hdiv⟩ := hn
  rcases hj.lt_or_eq with hlt | rfl
  · have hle := le_of_lt_succ hlt
    rw [path_entry hW hstep.lt hle] at hdiv
    rcases hle.lt_or_eq with hlt' | rfl
    · exact ⟨j, b, hle, hb, (hstep.upper j b hlt').mp hpending, hdiv⟩
    · exact ⟨j, b, hle, hb, ((hstep.rest b hb).mp hpending).1, hdiv⟩
  · rw [Nat.sub_self, Nat.pow_zero, Nat.div_one] at hdiv
    refine ⟨i, b₀, le_refl i, hstep.lt, hstep.entry, ?_⟩
    rw [Nat.sub_self, Nat.pow_zero, Nat.div_one]
    exact div_of_entry hW hi hb hdiv

lemma Descends.covers_iff {n : Nat} (hS : S n) :
    Covers W D pending i pos n ↔ Covers W D pending' (i + 1) (W * pos + b₀) n := by
  refine ⟨fun hn => ?_, hstep.covers_of hW hi⟩
  obtain ⟨j, b, hj, hb, hpending, hdiv⟩ := hn
  rw [← path_entry hW hstep.lt hj] at hdiv
  rcases hj.lt_or_eq with hlt | rfl
  · exact ⟨j, b, le_succ_of_le hj, hb, (hstep.upper j b hlt).mpr hpending, hdiv⟩
  by_cases hb₀ : b = b₀
  · -- the leaf is below the entry that is opened
    subst hb₀
    have hentry : n / W ^ (D - (j + 1)) = W * (W * pos + b) + n / W ^ (D - (j + 1)) % W := by
      rw [path_entry hW hstep.lt (Nat.le_refl j), Nat.sub_self, Nat.pow_zero, Nat.div_one,
        show D - j = D - (j + 1) + 1 by omega, pow_succ, ← Nat.div_div_eq_div_mul] at hdiv
      rw [← hdiv, div_add_mod]
    have hnext := (hstep.next _ (mod_lt _ hW)).mpr ⟨n, hS, hentry⟩
    refine ⟨j + 1, _, le_refl _, mod_lt _ hW, hnext, ?_⟩
    rwa [Nat.sub_self, Nat.pow_zero, Nat.div_one]
  · exact ⟨j, b, le_succ _, hb, (hstep.rest b hb).mpr ⟨hpending, hb₀⟩, hdiv⟩

/-- Going down into the lowest pending entry. -/
lemma Cursor.descend (h : Cursor W D S lo pending i pos) :
    Cursor W D S lo pending' (i + 1) (W * pos + b₀) where
  live := by
    intro j b hj hb hpending
    rcases hj.lt_or_eq with hlt | rfl
    · have hle := le_of_lt_succ hlt
      rw [path_entry hW hstep.lt hle]
      rcases hle.lt_or_eq with hlt' | rfl
      · exact h.live j b hle hb ((hstep.upper j b hlt').mp hpending)
      · exact h.live j b hle hb ((hstep.rest b hb).mp hpending).1
    · rw [Nat.sub_self, Nat.pow_zero, Nat.div_one]
      exact (hstep.next b hb).mp hpending
  behind := by
    intro j b hj hb hpending
    rcases (le_of_lt_succ hj).lt_or_eq with hlt | rfl
    · rw [path_entry hW hstep.lt hlt]
      exact h.behind j b hlt hb ((hstep.upper j b hlt).mp hpending)
    · obtain ⟨hentry, hne⟩ := (hstep.rest b hb).mp hpending
      rw [Nat.sub_self, Nat.pow_zero, Nat.div_one, Nat.mul_add_mod, Nat.mod_eq_of_lt hstep.lt]
      exact lt_of_le_of_ne (hstep.lowest b hb hentry) hne.symm
  above := fun n hn => h.above n (hstep.covers_of hW hi hn)
end

section
variable {pending' : Nat → Nat → Prop} {b₀ : Nat}

lemma Cursor.later (h : Cursor W D S lo pending D pos) (hj : j < D) (hb : b < W)
    (hpending : pending j b) (hdiv : n / W ^ (D - j) = W * (pos / W ^ (D - j)) + b) :
    pos < n / W := by
  have hbehind := h.behind j b hj hb hpending
  have hsplit : D - j = D - (j + 1) + 1 := by omega
  have hleft : n / W ^ (D - j) = n / W / W ^ (D - (j + 1)) := by
    rw [hsplit, pow_succ', Nat.div_div_eq_div_mul]
  have hright : pos / W ^ (D - j) = pos / W ^ (D - (j + 1)) / W := by
    rw [hsplit, pow_succ, Nat.div_div_eq_div_mul]
  rw [hleft, hright] at hdiv
  by_contra hle
  have hmono : n / W / W ^ (D - (j + 1)) ≤ pos / W ^ (D - (j + 1)) :=
    Nat.div_le_div_right (not_lt.mp hle)
  have hpath := div_add_mod (pos / W ^ (D - (j + 1))) W
  omega

lemma covers_leaf (hb : b < W) (hpending : pending D b) (hn : n = W * pos + b) :
    Covers W D pending D pos n :=
  ⟨D, b, le_refl D, hb, hpending, by simpa using hn⟩

/-- What is to be visited from a word of leaves: its own entries, and the rest. -/
lemma covers_cases (hn : Covers W D pending D pos n) :
    (∃ b, b < W ∧ pending D b ∧ n = W * pos + b) ∨
      ∃ j b, j < D ∧ b < W ∧ pending j b ∧ n / W ^ (D - j) = W * (pos / W ^ (D - j)) + b := by
  obtain ⟨j, b, hj, hb, hpending, hdiv⟩ := hn
  rcases hj.lt_or_eq with hlt | rfl
  · exact .inr ⟨j, b, hlt, hb, hpending, hdiv⟩
  · exact .inl ⟨b, hb, hpending, by simpa using hdiv⟩

structure Drops (W D : Nat) (pending pending' : Nat → Nat → Prop) (dropped : Nat → Prop) :
    Prop where
  upper : ∀ j b, j < D → (pending' j b ↔ pending j b)
  rest : ∀ b, b < W → (pending' D b ↔ pending D b ∧ ¬ dropped b)

lemma Drops.covers_iff {dropped : Nat → Prop} (hdrop : Drops W D pending pending' dropped)
    (n : Nat) : Covers W D pending D pos n ↔
      (∃ b, b < W ∧ pending D b ∧ dropped b ∧ n = W * pos + b) ∨ Covers W D pending' D pos n := by
  constructor
  · intro hn
    rcases covers_cases hn with ⟨b, hb, hpending, hn⟩ | ⟨j, b, hj, hb, hpending, hdiv⟩
    · by_cases hdropped : dropped b
      · exact .inl ⟨b, hb, hpending, hdropped, hn⟩
      · exact .inr (covers_leaf hb ((hdrop.rest b hb).mpr ⟨hpending, hdropped⟩) hn)
    · exact .inr ⟨j, b, hj.le, hb, (hdrop.upper j b hj).mpr hpending, hdiv⟩
  · rintro (⟨b, hb, hpending, _, hn⟩ | hn)
    · exact covers_leaf hb hpending hn
    · rcases covers_cases hn with ⟨b, hb, hpending, hn⟩ | ⟨j, b, hj, hb, hpending, hdiv⟩
      · exact covers_leaf hb ((hdrop.rest b hb).mp hpending).1 hn
      · exact ⟨j, b, hj.le, hb, (hdrop.upper j b hj).mp hpending, hdiv⟩

/-- After entries were dropped, the bound may grow up to what the word still has. -/
lemma Cursor.drop {dropped : Nat → Prop} {lo' : Nat} (h : Cursor W D S lo pending D pos)
    (hdrop : Drops W D pending pending' dropped) (hlo : lo' ≤ W * pos + W)
    (hrest : ∀ b, b < W → pending D b → ¬ dropped b → lo' ≤ W * pos + b) :
    Cursor W D S lo' pending' D pos where
  live := by
    intro j b hj hb hpending
    rcases hj.lt_or_eq with hlt | rfl
    · exact h.live j b hj hb ((hdrop.upper j b hlt).mp hpending)
    · exact h.live j b hj hb ((hdrop.rest b hb).mp hpending).1
  behind := fun j b hj hb hpending => h.behind j b hj hb ((hdrop.upper j b hj).mp hpending)
  above := by
    intro n hn
    rcases covers_cases hn with ⟨b, hb, hpending, rfl⟩ | ⟨j, b, hj, hb, hpending, hdiv⟩
    · obtain ⟨hpending, hkept⟩ := (hdrop.rest b hb).mp hpending
      exact hrest b hb hpending hkept
    have hlater := h.later hj hb ((hdrop.upper j b hj).mp hpending) hdiv
    calc
      lo' ≤ W * (pos + 1) := hlo
      _ ≤ W * (n / W) := mul_le_mul_left W hlater
      _ ≤ n := mul_div_le n W
end

section
variable {f : Nat} {level : Nat → Nat → Prop}

lemma entry_eq (hj : j ≤ D) (n : Nat) :
    n / W ^ (D - j) = W * (n / W ^ (D + 1 - j)) + n / W ^ (D - j) % W := by
  rw [succ_sub hj, pow_succ, ← Nat.div_div_eq_div_mul, div_add_mod]

/-- The cursor is on the path to `f`: it has yet to visit the leaves of the word of `f`
that do not come before `f`, and on each level the entries behind the path. -/
structure Starts (W D : Nat) (level : Nat → Nat → Prop) (pending : Nat → Nat → Prop) (f : Nat) :
    Prop where
  leaf : ∀ b, b < W → (pending D b ↔ level D (W * (f / W) + b) ∧ f % W ≤ b)
  path : ∀ j b, j < D → b < W → (pending j b ↔
    level j (W * (f / W ^ (D + 1 - j)) + b) ∧ f / W ^ (D - j) % W < b)

variable (hlevel : ∀ l, l ≤ D → ∀ n, level l n ↔ ∃ m, S m ∧ m / W ^ (D - l) = n)
  (hstart : Starts W D level pending f)
include hlevel hstart

lemma Starts.cursor : Cursor W D S f pending D (f / W) := by
  have hword : ∀ j, j ≤ D → f / W / W ^ (D - j) = f / W ^ (D + 1 - j) := fun j hj =>
    (path_succ hj).symm
  refine ⟨?_, ?_, ?_⟩
  · intro j b hj hb hpending
    rw [hword j hj]
    rcases hj.lt_or_eq with hlt | rfl
    · exact (hlevel j hj _).mp ((hstart.path j b hlt hb).mp hpending).1
    · rw [Nat.sub_self, Nat.add_sub_cancel_left, Nat.pow_one]
      simpa using (hlevel j hj _).mp ((hstart.leaf b hb).mp hpending).1
  · intro j b hj hb hpending
    rw [hword _ hj, Nat.add_sub_add_right]
    exact ((hstart.path j b hj hb).mp hpending).2
  rintro n ⟨j, b, hj, hb, hpending, hdiv⟩
  rw [hword j hj] at hdiv
  have hentry := entry_eq (W := W) hj f
  rcases hj.lt_or_eq with hlt | rfl
  · have hbehind := ((hstart.path j b hlt hb).mp hpending).2
    refine le_of_lt (lt_of_div_lt_div (c := W ^ (D - j)) ?_)
    omega
  · have hbehind := ((hstart.leaf b hb).mp hpending).2
    rw [Nat.sub_self, Nat.pow_zero, Nat.div_one] at hdiv hentry
    omega

/-- Every leaf from `f` on is still to be visited. -/
lemma Starts.covers (hW : 0 < W) (hS : S n) (hn : f ≤ n)
    (hroot : n / W ^ (D + 1) = f / W ^ (D + 1)) : Covers W D pending D (f / W) n := by
  -- down the path, as long as it is also the path to `n`
  suffices ∀ d j, d + j = D → n / W ^ (D + 1 - j) = f / W ^ (D + 1 - j) →
      Covers W D pending D (f / W) n from this D 0 (add_zero D) hroot
  intro d
  induction d with
  | zero =>
    intro j hj hsame
    obtain rfl : j = D := by omega
    rw [Nat.add_sub_cancel_left, Nat.pow_one] at hsame
    have hdiv : n = W * (f / W) + n % W := by rw [← hsame, div_add_mod]
    refine covers_leaf (mod_lt n hW) ((hstart.leaf _ (mod_lt n hW)).mpr ⟨?_, ?_⟩) hdiv
    · exact (hlevel j (le_refl j) _).mpr ⟨n, hS, by simpa using hdiv⟩
    · have hf := div_add_mod f W
      omega
  | succ d ih =>
    intro j hj hsame
    have hle : j ≤ D := by omega
    have hentry := entry_eq (W := W) hle n
    have hentryf := entry_eq (W := W) hle f
    rw [hsame] at hentry
    rcases eq_or_lt_of_le (Nat.div_le_div_right (c := W ^ (D - j)) hn) with heq | hlt
    · exact ih (j + 1) (by omega) (by rw [Nat.add_sub_add_right, heq])
    -- here the path to `n` branches off behind the path of the cursor
    refine ⟨j, n / W ^ (D - j) % W, hle, mod_lt _ hW, ?_, ?_⟩
    · refine (hstart.path j _ (by omega) (mod_lt _ hW)).mpr ⟨?_, by omega⟩
      exact (hlevel j hle _).mpr ⟨n, hS, hentry⟩
    · rwa [← path_succ hle]
end

end RadixCursor
