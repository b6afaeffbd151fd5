import QemuVmi.Qobject.JsonLexing

/-!
# Strings in single quotes

The lexer has the states of a string twice, for the two quotes. After the escapes of a backslash and of
a slash, a string in single quotes goes on in the states for double quotes, so that its closing quote
is an octet like any other.
-/

namespace QemuVmi.Qobject

open List

/-- A part of the content of a string. -/
inductive Piece
  | octet (c : Nat)
  | escape (c : Nat)
  | unicode (a b c d : Nat)
deriving DecidableEq, Repr

def Piece.Accepted : Piece → Prop
  | .octet c => c ≠ backslash ∧ ((1 ≤ c ∧ c ≤ 0xBF) ∨ (0xC2 ≤ c ∧ c ≤ 0xF4))
  | .escape c => SimpleEscape c ∨ c = '/'.toNat ∨ c = backslash ∨ c = squote ∨ c = dquote
  | .unicode a b c d => HexDigit a ∧ HexDigit b ∧ HexDigit c ∧ HexDigit d

def Piece.text (quote : Nat) : Piece → List Nat
  | .octet c => if c = quote then [backslash, c] else [c]
  | .escape c => [backslash, c]
  | .unicode a b c d => [backslash, 'u'.toNat, a, b, c, d]

def quoted (quote : Nat) (pieces : List Piece) : List Nat :=
  quote :: (pieces.flatMap (Piece.text quote) ++ [quote])

def Piece.Crosses (p : Piece) : Prop := p = .escape backslash ∨ p = .escape '/'.toNat

instance (p : Piece) : Decidable p.Crosses := inferInstanceAs (Decidable (_ ∨ _))

section
variable {quote : Nat} {p : Piece}

def Piece.value : Piece → List Nat
  | .octet c => [c]
  | .escape c => (unescape c).toList
  | .unicode a b c d => wcharToUtf8 ((hex2decimal a <<< 12) ||| (hex2decimal b <<< 8) |||
      (hex2decimal c <<< 4) ||| hex2decimal d)

lemma unescapeLoop_piece (hquote : quote = dquote ∨ quote = squote) (h : p.Accepted)
    (rest str : List Nat) : unescapeLoop quote (p.text quote ++ rest) str =
      unescapeLoop quote rest (str ++ p.value) := by
  cases p with
  | octet c =>
    obtain ⟨hback, hrange⟩ := h
    by_cases hc : c = quote
    · subst hc
      rw [Piece.text, if_pos rfl]
      refine unescapeLoop_escape hquote ?_ ?_ rest str <;> rcases hquote with rfl | rfl <;> decide
    rw [Piece.text, if_neg hc, singleton_append, unescapeLoop.eq_def]
    dsimp only
    rw [if_neg (by omega), if_neg hback]
    rfl
  | escape c =>
    have hsome : ∃ octet, unescape c = some octet ∧ c ≠ 'u'.toNat := by
      rcases h with (rfl | rfl | rfl | rfl | rfl) | rfl | rfl | rfl | rfl <;> exact ⟨_, rfl, by decide⟩
    obtain ⟨octet, hoctet, hu⟩ := hsome
    rw [Piece.value, hoctet]
    exact unescapeLoop_escape hquote hu hoctet rest str
  | unicode a b c d =>
    have hslash : ¬ (backslash = 0 ∨ backslash = quote) := by
      rcases hquote with rfl | rfl <;> decide
    simp only [Piece.text, cons_append, nil_append]
    rw [unescapeLoop, if_neg hslash, if_pos rfl, if_pos rfl]
    exact if_pos h

lemma qstringFromEscapedStr_quoted (hquote : quote = dquote ∨ quote = squote)
    {pieces : List Piece} (h : ∀ p ∈ pieces, p.Accepted) :
    qstringFromEscapedStr (quoted quote pieces) = .ok (pieces.flatMap Piece.value) := by
  have hloop : ∀ str, unescapeLoop quote (pieces.flatMap (Piece.text quote) ++ [quote]) str =
      .ok (str ++ pieces.flatMap Piece.value) := by
    induction pieces with
    | nil => simp [unescapeLoop]
    | cons p pieces ih =>
      intro str
      rw [flatMap_cons, append_assoc, unescapeLoop_piece hquote (h p mem_cons_self),
        ih fun p hp => h p (mem_cons_of_mem _ hp), flatMap_cons, append_assoc]
  have hself : (if quote = dquote then dquote else squote) = quote := by
    rcases hquote with rfl | rfl <;> rfl
  rw [quoted, qstringFromEscapedStr, hself, hloop, nil_append]
end

section

def LexState.DqHalf (state : LexState) : Prop :=
  state ∈ [.dqString, .dqStringEscape, .dqUcode0, .dqUcode1, .dqUcode2, .dqUcode3]

instance (state : LexState) : Decidable state.DqHalf := inferInstanceAs (Decidable (_ ∈ _))

def LexState.InString (state : LexState) : Prop := state.DqHalf ∨
  state ∈ [.sqString, .sqStringEscape, .sqUcode0, .sqUcode1, .sqUcode2, .sqUcode3]

variable {state : LexState} {token t : List Nat} {ch : Nat} {more : List JSONToken}

instance (state : LexState) : Decidable state.InString := inferInstanceAs (Decidable (_ ∨ _))

lemma jsonLexer_inString (h : state.InString) (ch : Nat) : jsonLexer state ch = .goto .error ∨
      (jsonLexer state ch = .done .string ∧ (state.DqHalf → ch = dquote)) ∨
      ∃ next, jsonLexer state ch = .goto next ∧ next ≠ .error ∧ next.InString ∧
        (state.DqHalf → next.DqHalf) := by
  simp only [LexState.InString, LexState.DqHalf, mem_cons, not_mem_nil, or_false] at h
  rcases h with (rfl | rfl | rfl | rfl | rfl | rfl) | (rfl | rfl | rfl | rfl | rfl | rfl) <;>
    simp only [jsonLexer, hexCell, stringCell] <;> split_ifs <;>
    first
    | exact .inl rfl
    | exact .inr (.inl ⟨rfl, fun _ => by assumption⟩)
    | exact .inr (.inl ⟨rfl, fun h => absurd h (by decide)⟩)
    | exact .inr (.inr ⟨_, rfl, by decide, by decide, by decide⟩)

lemma jsonLexer_zero_inString (h : state.InString) : jsonLexer state 0 = .goto .error := by
  cases state <;> revert h <;> decide

lemma string_of_inString (text : List Nat) : ∀ (state : LexState) (token : List Nat),
    state.InString → token.length ≤ maxTokenSize →
    lexAll ⟨state, token⟩ text = ⟨.string, t⟩ :: more →
    t.length ≤ maxTokenSize + 1 ∧ (state.DqHalf → t.getLast? = some dquote) := by
  have herror : ∀ (state : LexState) (token : List Nat) (ch : Nat) (flush : Bool),
      jsonLexer state ch = .goto .error →
      ∃ text, (jsonLexerFeedChar ⟨state, token⟩ ch flush).2 = [⟨.error, text⟩] := by
    intro state token ch flush hcell
    simp [jsonLexerFeedChar, feedRound, hcell]
  induction text with
  | nil =>
    intro state token hstate _ heq
    have hstart : state ≠ .start := by
      rintro rfl
      exact absurd hstate (by decide)
    obtain ⟨_, hemit⟩ := herror state token 0 true (jsonLexer_zero_inString hstate)
    rw [lexAll, if_neg hstart, hemit] at heq
    cases heq
  | cons ch text ih =>
    intro state token hstate hlen heq
    have hzero := jsonLexer_zero_inString hstate
    rcases jsonLexer_inString hstate ch with hcell | ⟨hcell, hquote⟩ | ⟨next, hcell, hne, hnext, hhalf⟩
    · obtain ⟨_, hemit⟩ := herror state token ch false hcell
      rw [lexAll, hemit] at heq
      cases heq
    · rw [lexAll_last token text hcell (by rw [hzero]; decide) (by decide)] at heq
      cases heq
      refine ⟨by simpa using hlen, fun h => ?_⟩
      rw [List.getLast?_concat, hquote h]
    have hfeed : jsonLexerFeedChar ⟨state, token⟩ ch false = limitToken ⟨next, token ++ [ch]⟩ := by
      simp [jsonLexerFeedChar, feedRound_goto token hcell hne]
    rw [lexAll, hfeed, limitToken] at heq
    split at heq
    · cases heq
    next hshort =>
      obtain ⟨hlength, hlast⟩ := ih next _ hnext (Nat.not_lt.mp hshort) heq
      exact ⟨hlength, fun h => hlast (hhalf h)⟩

lemma tableRun_piece {p : Piece} (h : p.Accepted) : tableRun .sqString (p.text squote) =
    some (if p.Crosses then .dqString else .sqString) := by
  cases p with
  | octet c =>
    obtain ⟨hback, hrange⟩ := h
    rw [if_neg (by rintro (h | h) <;> cases h)]
    by_cases hc : c = squote
    · rw [hc]
      decide
    have hcell : jsonLexer .sqString c = .goto .sqString := by
      rw [jsonLexer, stringCell, if_neg hc, if_neg hback, if_pos hrange]
    rw [Piece.text, if_neg hc, tableRun, hcell]
    rfl
  | escape c => rcases h with (rfl | rfl | rfl | rfl | rfl) | rfl | rfl | rfl | rfl <;> decide
  | unicode a b c d =>
    obtain ⟨ha, hb, hc, hd⟩ := h
    have hbackslash : jsonLexer .sqString backslash = .goto .sqStringEscape := by decide
    have hu : jsonLexer .sqStringEscape 'u'.toNat = .goto .sqUcode0 := by decide
    rw [if_neg (by rintro (h | h) <;> cases h)]
    simp only [Piece.text, tableRun, hbackslash, hu]
    simp only [jsonLexer, hexCell, ha, hb, hc, hd, if_true]

lemma tableRun_pieces {pieces : List Piece} (h : ∀ p ∈ pieces, p.Accepted ∧ ¬ p.Crosses) :
    tableRun .sqString (pieces.flatMap (Piece.text squote)) = some .sqString := by
  induction pieces with
  | nil => rfl
  | cons p pieces ih =>
    obtain ⟨haccepted, hcrosses⟩ := h p mem_cons_self
    rw [flatMap_cons, tableRun_append, tableRun_piece haccepted, if_neg hcrosses]
    exact ih fun p hp => h p (mem_cons_of_mem _ hp)

lemma last_of_crosses {rest : List Nat} (pieces : List Piece) : ∀ token : List Nat,
    (∀ p ∈ pieces, p.Accepted) → (∃ p ∈ pieces, p.Crosses) →
    token.length + (pieces.flatMap (Piece.text squote)).length ≤ maxTokenSize →
    lexAll ⟨.sqString, token⟩ (pieces.flatMap (Piece.text squote) ++ rest) = ⟨.string, t⟩ :: more →
    t.getLast? = some dquote := by
  induction pieces with
  | nil =>
    rintro token - ⟨p, hp, -⟩
    cases hp
  | cons p pieces ih =>
    rintro token haccepted ⟨p', hp', hcrosses'⟩ hlen heq
    rw [flatMap_cons, length_append] at hlen
    have hpiece := tableRun_piece (haccepted p mem_cons_self)
    rw [flatMap_cons, append_assoc, lexAll_tableRun _ _ _ _ _ hpiece (by omega)] at heq
    have hlen' : (token ++ p.text squote).length ≤ maxTokenSize := by
      rw [length_append]
      omega
    by_cases hcrosses : p.Crosses
    · rw [if_pos hcrosses] at heq
      exact (string_of_inString _ _ _ (by decide) hlen' heq).2 (by decide)
    rw [if_neg hcrosses] at heq
    refine ih _ (fun p hp => haccepted p (mem_cons_of_mem _ hp)) ⟨p', ?_, hcrosses'⟩ ?_ heq
    · refine (mem_cons.mp hp').resolve_left ?_
      rintro rfl
      exact hcrosses hcrosses'
    · rw [length_append]
      omega
end

/-- A string in single quotes, at the start of a token anywhere in a text, is one token that ends at its
quote and has the value of the string in double quotes exactly when no backslash and no slash is
escaped in it, and it is not too long. -/
theorem single_quoted_iff (pieces : List Piece) (h : ∀ p ∈ pieces, p.Accepted)
    (before rest : List Nat) (tokens : List JSONToken)
    (hbefore : ∀ text, lexAll .init (before ++ squote :: text) =
      tokens ++ lexAll .init (squote :: text)) :
    (lexAll .init (before ++ (quoted squote pieces ++ rest)) =
        tokens ++ ⟨.string, quoted squote pieces⟩ :: lexAll .init rest ∧
      qstringFromEscapedStr (quoted squote pieces) = qstringFromEscapedStr (quoted dquote pieces)) ↔
    (∀ p ∈ pieces, ¬ p.Crosses) ∧ (quoted squote pieces).length ≤ maxTokenSize + 1 := by
  have hvalue : qstringFromEscapedStr (quoted squote pieces) =
      qstringFromEscapedStr (quoted dquote pieces) := by
    rw [qstringFromEscapedStr_quoted (.inr rfl) h, qstringFromEscapedStr_quoted (.inl rfl) h]
  have hfirst : lexAll .init (squote :: (pieces.flatMap (Piece.text squote) ++ [squote] ++ rest)) =
      lexAll ⟨.sqString, [squote]⟩ (pieces.flatMap (Piece.text squote) ++ squote :: rest) := by
    rw [append_assoc]
    exact lexAll_tableRun [squote] _ _ _ [] rfl (by decide)
  rw [and_iff_left hvalue, quoted, cons_append, hbefore, append_cancel_left_eq, hfirst]
  simp only [length_cons, length_append, length_nil]
  constructor
  · intro heq
    obtain ⟨hlength, -⟩ := string_of_inString _ _ _ (by decide) (by decide) heq
    simp only [length_cons, length_append, length_nil] at hlength
    refine ⟨fun p hp hcrosses => ?_, hlength⟩
    have hlast := last_of_crosses pieces [squote] h ⟨p, hp, hcrosses⟩
      (by rw [length_singleton]; omega) heq
    rw [← cons_append, List.getLast?_concat] at hlast
    cases hlast
  · rintro ⟨hcrosses, hlength⟩
    have hlast : jsonLexer .sqString squote = .done .string := by decide
    rw [lexAll_tableRun _ _ _ _ _ (tableRun_pieces fun p hp => ⟨h p hp, hcrosses p hp⟩)
      (by rw [length_singleton]; omega), lexAll_last _ _ hlast (by decide) (by decide)]
    rfl

/-- A string after an operator. -/
theorem single_quoted_after_bracket :
    lexAll .init (ascii "['a\\'\\n']") = [op '[', ⟨.string, ascii "'a\\'\\n'"⟩, op ']'] ∧
      qstringFromEscapedStr (ascii "'a\\'\\n'") = qstringFromEscapedStr (ascii "\"a'\\n\"") :=
  (single_quoted_iff [.octet 'a'.toNat, .octet squote, .escape 'n'.toNat]
    (by simp [Piece.Accepted, SimpleEscape, backslash, squote]) (ascii "[") (ascii "]") [op '[']
    (fun text => lexAll_operator (by decide) _)).mpr (by decide)

/-- The two escapes in single quotes, and in double quotes. -/
theorem single_quoted_crosses :
    lexAll .init (ascii "'\\\\'") = [⟨.error, ascii "'\\\\'"⟩] ∧
      lexAll .init (ascii "'\\/'") = [⟨.error, ascii "'\\/'"⟩] ∧
      lexAll .init (ascii "\"\\\\\\/\"") = [⟨.string, ascii "\"\\\\\\/\""⟩] := by
  decide

end QemuVmi.Qobject
