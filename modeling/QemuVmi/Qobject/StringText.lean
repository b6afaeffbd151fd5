import QemuVmi.Qobject.QJson

/-!
# Strings as JSON text

A string in modified UTF-8 is written character by character, those beyond the basic plane as a pair
of surrogates. The parser makes UTF-8 of each escape for itself: of two surrogates it makes six
octets, and of the escape of U+0000 none.

Results:
1. `modUtf8Codepoint_encode`: the decoder on the encoding of a character.
2. `unescape_stringText`: what the parser makes of the text of a string.
-/

namespace QemuVmi.Qobject

open List Nat

def ValidCp (cp : Nat) : Prop :=
  cp ≤ 0x10FFFF ∧ ¬ (0xD800 ≤ cp ∧ cp ≤ 0xDFFF) ∧ ¬ (0xFDD0 ≤ cp ∧ cp ≤ 0xFDEF) ∧
    cp % 0x10000 < 0xFFFE

instance (cp : Nat) : Decidable (ValidCp cp) := inferInstanceAs (Decidable (_ ∧ _))

def encode (cp : Nat) : List Nat :=
  if cp = 0 then [0xC0, 0x80]
  else if cp < 0x80 then [cp]
  else if cp < 0x800 then [0xC0 + cp / 0x40, 0x80 + cp % 0x40]
  else if cp < 0x10000 then [0xE0 + cp / 0x1000, 0x80 + cp / 0x40 % 0x40, 0x80 + cp % 0x40]
  else
    [0xF0 + cp / 0x40000, 0x80 + cp / 0x1000 % 0x40, 0x80 + cp / 0x40 % 0x40, 0x80 + cp % 0x40]

def ModUtf8 (s : List Nat) : Prop := ∃ cps : List Nat, (∀ cp ∈ cps, ValidCp cp) ∧ s = cps.flatMap encode

def Plain (s : List Nat) : Prop := ∀ b ∈ s, b ≠ 0xC0 ∧ b < 0xF0

instance (s : List Nat) : Decidable (Plain s) :=
  inferInstanceAs (Decidable (∀ b ∈ s, b ≠ 0xC0 ∧ b < 0xF0))

lemma shiftLeft_or (a : Nat) {b i : Nat} (h : b < 2 ^ i) : a <<< i ||| b = a * 2 ^ i + b := by
  rw [← shiftLeft_add_eq_or_of_lt h, shiftLeft_eq]

lemma continuation_step {a : Nat} (ha : a < 0x40) (len cp : Nat) (p : List Nat) :
    continuation (len + 1) cp ((0x80 + a) :: p) = continuation len (cp * 0x40 + a) p := by
  have hmask : (0x80 + a) &&& 0xC0 = 0x80 := by
    revert a
    decide
  have hbits : (0x80 + a) &&& 0x3F = a := by
    revert a
    decide
  have hor : cp <<< 6 ||| a = cp * 0x40 + a := shiftLeft_or cp ha
  rw [continuation, if_pos hmask, hbits, hor]

variable {cp : Nat} {cps : List Nat}

lemma modUtf8Codepoint_lead (len : Nat) {byte : Nat} {p p' : List Nat} (hge : 0x80 ≤ byte)
    (hlt : byte < 0xFE) (hbit : byte &&& 0x40 ≠ 0) (hlen : leadingOnes byte 8 = len)
    (hcont : continuation (len - 1) (byte &&& (1 <<< (7 - len) - 1)) p = (some cp, p'))
    (hvalid : ValidCp cp) (hmin : minCp len ≤ cp ∨ (cp = 0 ∧ len = 2)) :
    modUtf8Codepoint (byte :: p) = (some cp, p') := by
  obtain ⟨hmax, hsurrogate, hnon, hnon'⟩ := hvalid
  have hfffe : cp &&& 0xFFFE ≠ 0xFFFE := by
    intro heq
    -- bits 1 to 15 are those of the number without its last bit
    have hmod : cp &&& 0xFFFE = (cp % 0x10000 / 2) * 2 := by
      apply eq_of_testBit_eq
      intro i
      rcases i with _ | i
      · simp [testBit_zero]
      rw [testBit_and, testBit_succ, testBit_succ, testBit_succ, Nat.mul_div_cancel _ (by decide)]
      have hmask := testBit_two_pow_sub_one 15 i
      have hhalf : cp % 0x10000 / 2 = cp / 2 % 2 ^ 15 := by omega
      rw [hmask, hhalf, testBit_mod_two_pow, Bool.and_comm]
    omega
  have hshort : ¬ (cp < minCp len ∧ ¬ (cp = 0 ∧ len = 2)) := by
    rintro ⟨hlt, hnot⟩
    rcases hmin with hmin | hzero
    · omega
    · exact hnot hzero
  rw [modUtf8Codepoint, if_neg (by omega), if_neg (by omega), if_neg (by omega), if_neg hbit, hlen]
  dsimp only
  rw [hcont]
  dsimp only
  rw [if_neg (by omega), if_neg (by omega), if_neg (by omega), if_neg hshort]

lemma modUtf8Codepoint_encode (hvalid : ValidCp cp) (rest : List Nat) :
    modUtf8Codepoint (encode cp ++ rest) = (some cp, rest) := by
  unfold encode
  split
  next hzero =>
    subst hzero
    refine modUtf8Codepoint_lead 2 (by decide) (by decide) (by decide) (by decide) ?_ hvalid
      (.inr ⟨rfl, rfl⟩)
    exact continuation_step (a := 0) (by decide) 0 0 rest
  split
  next hzero hlt => rw [singleton_append, modUtf8Codepoint, if_neg hzero, if_pos hlt]
  split
  next hge hlt =>
    have hlead : cp / 0x40 < 0x20 := by omega
    have hone : (0xC0 + cp / 0x40) &&& 0x40 ≠ 0 ∧ leadingOnes (0xC0 + cp / 0x40) 8 = 2 ∧
        (0xC0 + cp / 0x40) &&& (1 <<< (7 - 2) - 1) = cp / 0x40 := by
      generalize cp / 0x40 = a at hlead ⊢
      revert a
      decide
    refine modUtf8Codepoint_lead 2 (by omega) (by omega) hone.1 hone.2.1 ?_ hvalid
      (.inl (by simp only [minCp]; simp; omega))
    change continuation 1 _ ((0x80 + cp % 0x40) :: rest) = _
    rw [hone.2.2, continuation_step (by omega), continuation]
    congr 2
    omega
  · split
    next hge hlt =>
      have hlead : cp / 0x1000 < 0x10 := by omega
      have hone : (0xE0 + cp / 0x1000) &&& 0x40 ≠ 0 ∧ leadingOnes (0xE0 + cp / 0x1000) 8 = 3 ∧
          (0xE0 + cp / 0x1000) &&& (1 <<< (7 - 3) - 1) = cp / 0x1000 := by
        generalize cp / 0x1000 = a at hlead ⊢
        revert a
        decide
      refine modUtf8Codepoint_lead 3 (by omega) (by omega) hone.1 hone.2.1 ?_ hvalid
        (.inl (by simp only [minCp]; simp; omega))
      change continuation 2 _ ((0x80 + cp / 0x40 % 0x40) :: (0x80 + cp % 0x40) :: rest) = _
      rw [hone.2.2, continuation_step (by omega), continuation_step (by omega), continuation]
      congr 2
      omega
    · have hle := hvalid.1
      have hlead : cp / 0x40000 < 0x5 := by omega
      have hone : (0xF0 + cp / 0x40000) &&& 0x40 ≠ 0 ∧ leadingOnes (0xF0 + cp / 0x40000) 8 = 4 ∧
          (0xF0 + cp / 0x40000) &&& (1 <<< (7 - 4) - 1) = cp / 0x40000 := by
        generalize cp / 0x40000 = a at hlead ⊢
        revert a
        decide
      refine modUtf8Codepoint_lead 4 (by omega) (by omega) hone.1 hone.2.1 ?_ hvalid
        (.inl (by simp only [minCp]; simp; omega))
      change continuation 3 _ ((0x80 + cp / 0x1000 % 0x40) :: (0x80 + cp / 0x40 % 0x40) ::
        (0x80 + cp % 0x40) :: rest) = _
      rw [hone.2.2, continuation_step (by omega), continuation_step (by omega),
        continuation_step (by omega), continuation]
      congr 2
      omega

lemma encode_cons (cp : Nat) : ∃ byte tail, encode cp = byte :: tail ∧ byte ≠ 0 := by
  unfold encode
  split
  · exact ⟨_, _, rfl, by decide⟩
  rename_i hzero
  split
  · exact ⟨_, _, rfl, hzero⟩
  split
  · exact ⟨_, _, rfl, by omega⟩
  · split
    · exact ⟨_, _, rfl, by omega⟩
    · exact ⟨_, _, rfl, by omega⟩

lemma charsText_encode (cps : List Nat) : ∀ n, (cps.flatMap encode).length ≤ n →
    (∀ cp ∈ cps, ValidCp cp) →
    charsText n (cps.flatMap encode) = cps.flatMap fun cp => charText (some cp) := by
  induction cps with
  | nil =>
    intro n _ _
    cases n <;> rfl
  | cons cp cps ih =>
    intro n hn hvalid
    obtain ⟨byte, tail, hencode, hbyte⟩ := encode_cons cp
    have hdecode := modUtf8Codepoint_encode (hvalid cp mem_cons_self) (cps.flatMap encode)
    rw [flatMap_cons, hencode, cons_append] at hn ⊢
    rw [hencode, cons_append] at hdecode
    cases n with
    | zero => simp at hn
    | succ n =>
      have hrest : (cps.flatMap encode).length ≤ n := by
        simp only [length_cons, length_append] at hn
        omega
      rw [flatMap_cons, ← ih n hrest fun c hc => hvalid c (mem_cons_of_mem cp hc)]
      rw [charsText]
      · rw [hdecode]
      · exact cons_ne_nil _ _
      · rintro rest ⟨⟩
        exact hbyte rfl

def readBack (cp : Nat) : List Nat :=
  if cp > 0xFFFF then
    wcharToUtf8 (0xD800 + ((cp - 0x10000) >>> 10)) ++
      wcharToUtf8 (0xDC00 + ((cp - 0x10000) &&& 0x3FF))
  else wcharToUtf8 cp

lemma hexUpper_spec {d : Nat} (h : d < 0x10) :
    HexDigit (hexUpper d) ∧ hex2decimal (hexUpper d) = d := by
  revert d
  decide

lemma hexDigits_value {v : Nat} (h : v < 0x10000) :
    ((v / 0x1000 % 0x10) <<< 12) ||| ((v / 0x100 % 0x10) <<< 8) ||| ((v / 0x10 % 0x10) <<< 4) |||
      (v % 0x10) = v := by
  have hsecond : (v / 0x1000 % 0x10) <<< 12 ||| (v / 0x100 % 0x10) <<< 8 =
      (v / 0x100 % 0x100) <<< 8 := by
    rw [shiftLeft_or _ (by rw [shiftLeft_eq]; omega), shiftLeft_eq, shiftLeft_eq]
    omega
  have hthird : (v / 0x100 % 0x100) <<< 8 ||| (v / 0x10 % 0x10) <<< 4 =
      (v / 0x10 % 0x1000) <<< 4 := by
    rw [shiftLeft_or _ (by rw [shiftLeft_eq]; omega), shiftLeft_eq, shiftLeft_eq]
    omega
  rw [hsecond, hthird, shiftLeft_or _ (by omega)]
  omega

lemma unescapeLoop_unicodeEscape {v : Nat} (h : v < 0x10000) (rest str : List Nat) :
    unescapeLoop dquote (unicodeEscape v ++ rest) str =
      unescapeLoop dquote rest (str ++ wcharToUtf8 v) := by
  obtain ⟨ha, ha'⟩ := hexUpper_spec (mod_lt (v / 0x1000) (by decide : 0 < 0x10))
  obtain ⟨hb, hb'⟩ := hexUpper_spec (mod_lt (v / 0x100) (by decide : 0 < 0x10))
  obtain ⟨hc, hc'⟩ := hexUpper_spec (mod_lt (v / 0x10) (by decide : 0 < 0x10))
  obtain ⟨hd, hd'⟩ := hexUpper_spec (mod_lt v (by decide : 0 < 0x10))
  have hvalue := hexDigits_value h
  simp only [unicodeEscape, cons_append, nil_append]
  rw [unescapeLoop, if_neg (by decide), if_pos rfl, if_pos rfl, if_pos ⟨ha, hb, hc, hd⟩]
  rw [ha', hb', hc', hd', hvalue]

lemma wcharToUtf8_ascii (hpos : cp ≠ 0) (h : cp < 0x80) : wcharToUtf8 cp = [cp] := by
  have hmask : cp &&& 0x7F = cp := by
    have hmod := and_two_pow_sub_one_eq_mod cp 7
    exact hmod.trans (mod_eq_of_lt h)
  rw [wcharToUtf8, if_pos (by omega), hmask, if_neg hpos]

lemma readBack_ascii (hpos : cp ≠ 0) (h : cp < 0x80) : readBack cp = [cp] := by
  rw [readBack, if_neg (by omega), wcharToUtf8_ascii hpos h]

lemma unescapeLoop_escape {quote esc octet : Nat} (hquote : quote = dquote ∨ quote = squote)
    (hu : esc ≠ 'u'.toNat) (hesc : unescape esc = some octet) (rest str : List Nat) :
    unescapeLoop quote (backslash :: esc :: rest) str =
      unescapeLoop quote rest (str ++ [octet]) := by
  have hslash : ¬ (backslash = 0 ∨ backslash = quote) := by rcases hquote with rfl | rfl <;> decide
  rw [unescapeLoop.eq_def]
  dsimp only
  rw [if_neg hslash, if_pos rfl, if_neg hu, hesc]

lemma unescapeLoop_charText (hvalid : ValidCp cp) (rest str : List Nat) :
    unescapeLoop dquote (charText (some cp) ++ rest) str =
      unescapeLoop dquote rest (str ++ readBack cp) := by
  unfold charText
  simp only [Option.getD_some]
  -- the characters with an escape of their own
  iterate 7
    split
    · subst cp
      exact unescapeLoop_escape (.inl rfl) (by decide) rfl rest str
  split
  · -- a pair of surrogates
    rename_i hbig
    have hmax := hvalid.1
    have hhigh : 0xD800 + ((cp - 0x10000) >>> 10) < 0x10000 := by
      rw [shiftRight_eq_div_pow]
      omega
    have hlow : 0xDC00 + ((cp - 0x10000) &&& 0x3FF) < 0x10000 := by
      have hmask : (cp - 0x10000) &&& 0x3FF ≤ 0x3FF := and_le_right
      omega
    rw [append_assoc, unescapeLoop_unicodeEscape hhigh, unescapeLoop_unicodeEscape hlow,
      readBack, if_pos hbig, append_assoc]
  split
  · rw [unescapeLoop_unicodeEscape (by omega), readBack, if_neg (by omega)]
  next hquote hback _ _ _ _ _ _ hprint =>
    rw [readBack_ascii (by omega) (by omega), singleton_append]
    rw [unescapeLoop.eq_def]
    dsimp only
    rw [if_neg (by omega), if_neg hback]

lemma unescapeLoop_chars (cps : List Nat) : ∀ str : List Nat, (∀ cp ∈ cps, ValidCp cp) →
    unescapeLoop dquote ((cps.flatMap fun cp => charText (some cp)) ++ [dquote]) str =
      .ok (str ++ cps.flatMap readBack) := by
  induction cps with
  | nil =>
    intro str _
    rw [flatMap_nil, flatMap_nil, append_nil, nil_append, unescapeLoop, if_pos (.inr rfl)]
  | cons cp cps ih =>
    intro str hvalid
    rw [flatMap_cons, append_assoc, unescapeLoop_charText (hvalid cp mem_cons_self),
      ih _ fun c hc => hvalid c (mem_cons_of_mem cp hc), flatMap_cons, append_assoc]

variable (hvalid : ∀ cp ∈ cps, ValidCp cp)

include hvalid in
lemma unescape_stringText :
    qstringFromEscapedStr (stringText (cps.flatMap encode)) = .ok (cps.flatMap readBack) := by
  rw [stringText, charsText_encode cps _ (le_refl _) hvalid, append_assoc,
    singleton_append, qstringFromEscapedStr, if_pos rfl, unescapeLoop_chars cps [] hvalid,
    nil_append]

lemma wcharToUtf8_eq {w : Nat} (h : w < 0x10000) :
    wcharToUtf8 w = if w = 0 then [] else if w < 0x80 then [w]
      else if w < 0x800 then [0xC0 + w / 0x40, 0x80 + w % 0x40]
      else [0xE0 + w / 0x1000, 0x80 + w / 0x40 % 0x40, 0x80 + w % 0x40] := by
  have hsix : ∀ x : Nat, 0x80 ||| (x &&& 0x3F) = 0x80 + x % 0x40 := by
    intro x
    have hmod : x &&& 0x3F = x % 0x40 := and_two_pow_sub_one_eq_mod x 6
    have hor : 0x80 ||| x % 0x40 = 0x80 + x % 0x40 :=
      shiftLeft_or 2 (i := 6) (mod_lt x (by decide))
    rw [hmod, hor]
  split
  next hzero =>
    rw [hzero]
    rfl
  split
  next hzero hlt => exact wcharToUtf8_ascii hzero hlt
  rename_i hge
  split
  next hlt =>
    have hmod : (w >>> 6) &&& 0x1F = w / 0x40 % 0x20 := by
      rw [shiftRight_eq_div_pow]
      exact and_two_pow_sub_one_eq_mod (w / 2 ^ 6) 5
    have hor : 0xC0 ||| w / 0x40 % 0x20 = 0xC0 + w / 0x40 % 0x20 :=
      shiftLeft_or 6 (i := 5) (mod_lt _ (by decide))
    rw [wcharToUtf8, if_neg (by omega), if_pos (by omega), hsix, hmod, hor,
      mod_eq_of_lt (by omega : w / 0x40 < 0x20)]
  · have hmod : (w >>> 12) &&& 0x0F = w / 0x1000 % 0x10 := by
      rw [shiftRight_eq_div_pow]
      exact and_two_pow_sub_one_eq_mod (w / 2 ^ 12) 4
    have hor : 0xE0 ||| w / 0x1000 % 0x10 = 0xE0 + w / 0x1000 % 0x10 :=
      shiftLeft_or 14 (i := 4) (mod_lt _ (by decide))
    have hmid : w >>> 6 = w / 0x40 := shiftRight_eq_div_pow w 6
    rw [wcharToUtf8, if_neg (by omega), if_neg (by omega), hsix, hsix, hmod, hor, hmid,
      mod_eq_of_lt (by omega : w / 0x1000 < 0x10)]

lemma plain_wcharToUtf8 {w : Nat} (h : w < 0x10000) : Plain (wcharToUtf8 w) := by
  intro b hb
  rw [wcharToUtf8_eq h] at hb
  split at hb
  · cases hb
  split at hb
  · simp only [mem_singleton] at hb
    omega
  split at hb
  · simp only [mem_cons, not_mem_nil, or_false] at hb
    omega
  · simp only [mem_cons, not_mem_nil, or_false] at hb
    omega

lemma Plain.append {s s' : List Nat} (h : Plain s) (h' : Plain s') : Plain (s ++ s') := by
  intro b hb
  rcases mem_append.mp hb with hb | hb
  · exact h b hb
  · exact h' b hb

lemma plain_readBack (hvalid : ValidCp cp) : Plain (readBack cp) := by
  have hmax := hvalid.1
  rw [readBack]
  split
  · refine Plain.append (plain_wcharToUtf8 ?_) (plain_wcharToUtf8 ?_)
    · rw [shiftRight_eq_div_pow]
      omega
    · have hmask : (cp - 0x10000) &&& 0x3FF ≤ 0x3FF := and_le_right
      omega
  · exact plain_wcharToUtf8 (by omega)

include hvalid in
lemma plain_flatMap_readBack : Plain (cps.flatMap readBack) := by
  intro b hb
  obtain ⟨cp, hcp, hb⟩ := mem_flatMap.mp hb
  exact plain_readBack (hvalid cp hcp) b hb

lemma readBack_of_plain (h : Plain (encode cp)) : readBack cp = encode cp := by
  have hnull : cp ≠ 0 := by
    rintro rfl
    exact (h 0xC0 (by decide)).1 rfl
  have hsmall : cp < 0x10000 := by
    by_contra hbig
    have hlead : 0xF0 + cp / 0x40000 ∈ encode cp := by
      rw [encode, if_neg hnull, if_neg (by omega), if_neg (by omega), if_neg hbig]
      exact mem_cons_self
    have := (h _ hlead).2
    omega
  rw [readBack, if_neg (by omega), wcharToUtf8_eq hsmall, encode, if_neg hnull, if_neg hnull,
    if_pos hsmall]

include hvalid in
lemma readBack_eq_iff :
    cps.flatMap readBack = cps.flatMap encode ↔ Plain (cps.flatMap encode) := by
  constructor
  · intro heq
    rw [← heq]
    exact plain_flatMap_readBack hvalid
  · intro hplain
    refine flatMap_congr fun cp hcp => readBack_of_plain fun b hb => ?_
    exact hplain b (mem_flatMap.mpr ⟨cp, hcp, hb⟩)

end QemuVmi.Qobject
