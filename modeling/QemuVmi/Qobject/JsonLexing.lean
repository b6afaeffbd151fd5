import QemuVmi.Qobject.StringText

/-!
# Tokens of a printed text

The lexer is a table, so that a text that stays inside one token only follows the table (`tableRun`).
A number, a keyword or a run of blanks ends at the character after it, which the lexer looks at again
as at the start: what a text lexes to is therefore said together with the text that follows.

Results:
1. `lexAll_toJson`: the tokens of a printed tree.
2. `feed_flush_eq`: feeding a text and flushing hands exactly these tokens to the streamer.
-/

namespace QemuVmi.Qobject

open List

def lexAll (lexer : JSONLexer) : List Nat → List JSONToken
  | [] => if lexer.state = .start then [] else (jsonLexerFeedChar lexer 0 true).2
  | ch :: text =>
    (jsonLexerFeedChar lexer ch false).2 ++ lexAll (jsonLexerFeedChar lexer ch false).1 text

def tableRun (state : LexState) : List Nat → Option LexState
  | [] => some state
  | ch :: text =>
    match jsonLexer state ch with
    | .done _ => none
    | .goto .error => none
    | .goto next => tableRun next text

lemma tableRun_append (text text' : List Nat) : ∀ state,
    tableRun state (text ++ text') = (tableRun state text).bind fun next => tableRun next text' := by
  induction text with
  | nil =>
    intro state
    rfl
  | cons ch text ih =>
    intro state
    rw [cons_append, tableRun, tableRun]
    split
    · rfl
    · rfl
    · exact ih _

variable {state : LexState} {ch d : Nat} {rest text : List Nat}

lemma jsonLexer_zero_ne {next : LexState} (h : next ≠ .error) :
    jsonLexer state 0 ≠ .goto next := by
  intro hcell
  cases state <;> revert hcell <;> cases next <;> first | decide | exact absurd rfl h

lemma feedRound_goto {next : LexState} (token : List Nat)
    (hcell : jsonLexer state ch = .goto next) (hnext : next ≠ .error) :
    feedRound ⟨state, token⟩ ch = ⟨⟨next, token ++ [ch]⟩, [], true, false⟩ := by
  have hlook : terminalNeededLookahead state (.goto next) = false :=
    decide_eq_false (jsonLexer_zero_ne hnext)
  unfold feedRound
  simp only [hcell, hlook]
  split <;> simp_all

lemma limitToken_short {lexer : JSONLexer} (h : lexer.token.length ≤ maxTokenSize) :
    limitToken lexer = (lexer, []) := by
  rw [limitToken, if_neg (Nat.not_lt.mpr h)]

lemma limitToken_init : limitToken .init = (.init, []) := limitToken_short (Nat.zero_le _)

lemma lexAll_tableRun (text rest : List Nat) : ∀ (state next : LexState) (token : List Nat),
    tableRun state text = some next → token.length + text.length ≤ maxTokenSize →
    lexAll ⟨state, token⟩ (text ++ rest) = lexAll ⟨next, token ++ text⟩ rest := by
  induction text with
  | nil =>
    intro state next token hrun _
    cases hrun
    rw [nil_append, append_nil]
  | cons ch text ih =>
    intro state next token hrun hlen
    rw [tableRun] at hrun
    rw [length_cons] at hlen
    cases hcell : jsonLexer state ch with
    | done type =>
      rw [hcell] at hrun
      cases hrun
    | goto mid =>
      by_cases hmid : mid = .error
      · rw [hcell, hmid] at hrun
        cases hrun
      have hrun' : tableRun mid text = some next := by
        rw [hcell] at hrun
        cases mid <;> first | exact absurd rfl hmid | exact hrun
      have hstep : jsonLexerFeedChar ⟨state, token⟩ ch false = (⟨mid, token ++ [ch]⟩, []) := by
        have hshort : (token ++ [ch]).length ≤ maxTokenSize := by
          rw [length_append, length_singleton]
          omega
        have hlimit : limitToken ⟨mid, token ++ [ch]⟩ = (⟨mid, token ++ [ch]⟩, []) :=
          limitToken_short hshort
        simp [jsonLexerFeedChar, feedRound_goto token hcell hmid, hlimit]
      rw [cons_append, lexAll, hstep, nil_append, ih mid next _ hrun' (by
        rw [length_append, length_singleton]
        omega), append_assoc, singleton_append]

variable {type : TokenType}

lemma lexAll_last (token rest : List Nat)
    (hcell : jsonLexer state ch = .done type) (hzero : jsonLexer state 0 ≠ .done type)
    (hskip : type ≠ .skip) :
    lexAll ⟨state, token⟩ (ch :: rest) = ⟨type, token ++ [ch]⟩ :: lexAll .init rest := by
  have hlook : terminalNeededLookahead state (.done type) = false := decide_eq_false hzero
  have hround : feedRound ⟨state, token⟩ ch = ⟨.init, [⟨type, token ++ [ch]⟩], true, false⟩ := by
    unfold feedRound
    simp only [hcell, hlook]
    split <;> simp_all
  have hstep : jsonLexerFeedChar ⟨state, token⟩ ch false = (.init, [⟨type, token ++ [ch]⟩]) := by
    simp [jsonLexerFeedChar, hround, limitToken_init]
  rw [lexAll, hstep, singleton_append]

def emitted (type : TokenType) (token : List Nat) : List JSONToken :=
  if type = .skip then [] else [⟨type, token⟩]

lemma feedRound_lookahead (token : List Nat)
    (hcell : jsonLexer state ch = .done type) (hzero : jsonLexer state 0 = .done type) :
    feedRound ⟨state, token⟩ ch = ⟨.init, emitted type token, false, false⟩ := by
  have hlook : terminalNeededLookahead state (.done type) = true := decide_eq_true hzero
  unfold feedRound emitted
  simp only [hcell, hlook]
  split <;> simp_all

lemma lexAll_lookahead (type : TokenType) (token : List Nat) (hstate : state ≠ .start)
    (hzero : jsonLexer state 0 = .done type)
    (hnext : ∀ ch, rest.head? = some ch → jsonLexer state ch = .done type) :
    lexAll ⟨state, token⟩ rest = emitted type token ++ lexAll .init rest := by
  cases rest with
  | nil =>
    have hround := feedRound_lookahead token hzero hzero
    have hinit : lexAll .init [] = [] := rfl
    rw [hinit, append_nil, lexAll, if_neg hstate]
    simp [jsonLexerFeedChar, hround, limitToken_init]
  | cons ch rest =>
    have hround := feedRound_lookahead token (hnext ch rfl) hzero
    have hstep : jsonLexerFeedChar ⟨state, token⟩ ch false = ((jsonLexerFeedChar .init ch false).1,
          emitted type token ++ (jsonLexerFeedChar .init ch false).2) := by
      -- the second round is the first one of the start
      have hagain : (feedRound .init ch).returned = true ∨ (feedRound .init ch).charConsumed = true :=
        feedRound_start ch []
      unfold jsonLexerFeedChar
      simp only [hround]
      rcases hagain with hagain | hagain
      · simp [hagain]
      · by_cases hreturned : (feedRound .init ch).returned = true
        · simp [hreturned]
        · simp [hagain, hreturned]
    rw [lexAll, hstep, lexAll, append_assoc]

/-- `JSON_OPERATOR` with one character. -/
def op (c : Char) : JSONToken := ⟨.operator, [c.toNat]⟩

lemma lexAll_operator {c : Char} (hcell : jsonLexer .start c.toNat = .done .operator)
    (rest : List Nat) : lexAll .init (c.toNat :: rest) = op c :: lexAll .init rest :=
  lexAll_last [] rest hcell (by decide) (by decide)

lemma tableRun_all (hstate : state ≠ .error) (text : List Nat)
    (h : ∀ ch ∈ text, jsonLexer state ch = .goto state) : tableRun state text = some state := by
  induction text with
  | nil => rfl
  | cons ch text ih =>
    rw [tableRun, h ch mem_cons_self]
    have hrest := ih fun c hc => h c (mem_cons_of_mem ch hc)
    cases state <;> first | exact absurd rfl hstate | exact hrest

def Solid (text : List Nat) : Prop := ∃ ch tail, text = ch :: tail ∧ ¬ Blank ch ∧ ch ≤ 0x7F

lemma Solid.append (h : Solid text) (rest : List Nat) : Solid (text ++ rest) := by
  obtain ⟨ch, tail, rfl, hch⟩ := h
  exact ⟨ch, tail ++ rest, rfl, hch⟩

lemma lexAll_blanks {blanks : List Nat} (hblank : ∀ ch ∈ blanks, Blank ch)
    (hlen : blanks.length ≤ maxTokenSize) (hrest : Solid rest) :
    lexAll .init (blanks ++ rest) = lexAll .init rest := by
  cases blanks with
  | nil => rfl
  | cons ch blanks =>
    have hstart : jsonLexer .start ch = .goto .whitespace := by
      rcases hblank ch mem_cons_self with h | h | h | h <;> rw [h] <;> decide
    have hrun : tableRun .start (ch :: blanks) = some .whitespace := by
      rw [tableRun, hstart]
      refine tableRun_all (by decide) blanks fun c hc => ?_
      rw [jsonLexer, if_pos (hblank c (mem_cons_of_mem ch hc))]
    obtain ⟨c, tail, rfl, hsolid, hascii⟩ := hrest
    rw [JSONLexer.init, lexAll_tableRun _ _ _ _ _ hrun (by simpa using hlen),
      lexAll_lookahead .skip _ (by decide) (by decide)]
    · rfl
    · intro c' hc'
      cases hc'
      rw [jsonLexer, if_neg hsolid, terminal, if_pos hascii]

def Delim (ch : Nat) : Prop :=
  ch = ','.toNat ∨ ch = 0x0a ∨ ch = '}'.toNat ∨ ch = ']'.toNat

def Stops (rest : List Nat) : Prop := ∀ ch, rest.head? = some ch → Delim ch

lemma lexAll_token (hrun : tableRun .start text = some state)
    (hstate : state ≠ .start) (hskip : type ≠ .skip) (hzero : jsonLexer state 0 = .done type)
    (hdelim : ∀ ch, Delim ch → jsonLexer state ch = .done type) (hrest : Stops rest)
    (hlen : text.length ≤ maxTokenSize) :
    lexAll .init (text ++ rest) = ⟨type, text⟩ :: lexAll .init rest := by
  rw [JSONLexer.init, lexAll_tableRun _ _ _ _ _ hrun (by simpa using hlen),
    lexAll_lookahead type _ hstate hzero fun ch hch => hdelim ch (hrest ch hch), emitted, if_neg hskip]
  rfl

lemma delim_keyword (h : Delim ch) : jsonLexer .keyword ch = .done .keyword := by
  rcases h with h | h | h | h <;> rw [h] <;> decide

lemma delim_zero (h : Delim ch) : jsonLexer .zero ch = .done .integer := by
  rcases h with h | h | h | h <;> rw [h] <;> decide

lemma delim_nonzero (h : Delim ch) : jsonLexer .nonzeroNumber ch = .done .integer := by
  rcases h with h | h | h | h <;> rw [h] <;> decide

lemma lexAll_keyword (hrun : tableRun .start text = some .keyword) (hrest : Stops rest)
    (hlen : text.length ≤ maxTokenSize) :
    lexAll .init (text ++ rest) = ⟨.keyword, text⟩ :: lexAll .init rest :=
  lexAll_token hrun (by decide) (by decide) (by decide) (fun _ => delim_keyword) hrest hlen

lemma tableRun_true : tableRun .start (ascii "true") = some .keyword := by decide

lemma tableRun_false : tableRun .start (ascii "false") = some .keyword := by decide

/-! ### Numbers -/

lemma decimalLoop_shape (n : Nat) : ∀ (value : Nat) (text : List Nat), value < n → 0 < value →
    (∀ ch ∈ text, Between '0' '9' ch) →
    ∃ d ds, decimalLoop n value text = d :: ds ∧ Between '1' '9' d ∧ ∀ ch ∈ ds, Between '0' '9' ch := by
  induction n with
  | zero =>
    intro value text hlt
    exact absurd hlt (Nat.not_lt_zero _)
  | succ n ih =>
    intro value text hlt hpos hdigits
    rw [decimalLoop]
    split
    · refine ⟨_, text, rfl, ?_, hdigits⟩
      constructor <;> simp only [Char.reduceToNat] <;> omega
    refine ih (value / 10) _ (by omega) (by omega) fun ch hch => ?_
    rcases mem_cons.mp hch with rfl | hch
    · constructor <;> simp only [Char.reduceToNat] <;> omega
    · exact hdigits ch hch

lemma tableRun_nonzero {ds : List Nat} (hstate : jsonLexer state d = .goto .nonzeroNumber)
    (hds : ∀ ch ∈ ds, Between '0' '9' ch) : tableRun state (d :: ds) = some .nonzeroNumber := by
  rw [tableRun, hstate]
  refine tableRun_all (by decide) ds fun ch hch => ?_
  rw [jsonLexer, if_pos (hds ch hch)]

lemma between_cases (h : Between '1' '9' d) : 0x31 ≤ d ∧ d ≤ 0x39 := h

lemma start_digit (h : Between '1' '9' d) : jsonLexer .start d = .goto .nonzeroNumber := by
  obtain ⟨hlo, hhi⟩ := between_cases h
  rw [jsonLexer, if_neg (by unfold dquote; omega), if_neg (by unfold squote; omega),
    if_neg (by simp only [Char.reduceToNat]; omega), if_pos h]

lemma minus_digit (h : Between '1' '9' d) :
    jsonLexer .negNonzeroNumber d = .goto .nonzeroNumber := by
  obtain ⟨hlo, hhi⟩ := between_cases h
  rw [jsonLexer, if_neg (by simp only [Char.reduceToNat]; omega), if_pos h]

lemma tableRun_intText (value : Int) : tableRun .start (intText value) = some .zero ∨
      tableRun .start (intText value) = some .nonzeroNumber := by
  rw [intText]
  split
  · -- a minus and a number that is not zero
    obtain ⟨d, ds, hloop, hd, hds⟩ :=
      decimalLoop_shape (value.natAbs + 1) value.natAbs [] (by omega) (by omega) (by simp)
    have hminus : jsonLexer .start '-'.toNat = .goto .negNonzeroNumber := by decide
    right
    rw [hloop, tableRun, hminus]
    exact tableRun_nonzero (minus_digit hd) hds
  · by_cases hzero : value.natAbs = 0
    · left
      rw [hzero]
      decide
    · obtain ⟨d, ds, hloop, hd, hds⟩ :=
        decimalLoop_shape (value.natAbs + 1) value.natAbs [] (by omega) (by omega) (by simp)
      right
      rw [hloop]
      exact tableRun_nonzero (start_digit hd) hds

lemma solid_intText (value : Int) : Solid (intText value) := by
  rw [intText]
  split
  · exact ⟨_, _, rfl, by decide, by decide⟩
  by_cases hzero : value.natAbs = 0
  · rw [hzero]
    exact ⟨_, _, rfl, by decide, by decide⟩
  obtain ⟨d, ds, hloop, hd, _⟩ :=
    decimalLoop_shape (value.natAbs + 1) value.natAbs [] (by omega) (by omega) (by simp)
  obtain ⟨hlo, hhi⟩ := between_cases hd
  exact ⟨d, ds, hloop, by unfold Blank; omega, by omega⟩

lemma lexAll_intText (value : Int) (hrest : Stops rest)
    (hlen : (intText value).length ≤ maxTokenSize) :
    lexAll .init (intText value ++ rest) = ⟨.integer, intText value⟩ :: lexAll .init rest := by
  rcases tableRun_intText value with hrun | hrun
  · exact lexAll_token hrun (by decide) (by decide) (by decide) (fun _ => delim_zero) hrest hlen
  · exact lexAll_token hrun (by decide) (by decide) (by decide) (fun _ => delim_nonzero) hrest hlen

/-! ### Strings -/

lemma tableRun_unicodeEscape (v : Nat) :
    tableRun .dqString (unicodeEscape v) = some .dqString := by
  have hdigit : ∀ (x : Nat) (next : LexState), hexCell next (hexUpper (x % 0x10)) = .goto next := by
    intro x next
    rw [hexCell, if_pos (hexUpper_spec (Nat.mod_lt x (by decide))).1]
  have hbackslash : jsonLexer .dqString backslash = .goto .dqStringEscape := by decide
  have hu : jsonLexer .dqStringEscape 'u'.toNat = .goto .dqUcode0 := by decide
  simp only [unicodeEscape, tableRun, hbackslash, hu]
  simp only [jsonLexer, hdigit]

lemma tableRun_charText (cp : Nat) :
    tableRun .dqString (charText (some cp)) = some .dqString := by
  unfold charText
  simp only [Option.getD_some]
  -- the characters with an escape of their own
  iterate 7
    split
    · decide
  split
  · rw [tableRun_append, tableRun_unicodeEscape, Option.bind_some, tableRun_unicodeEscape]
  split
  · exact tableRun_unicodeEscape cp
  next hquote hback _ _ _ _ _ _ hprint =>
    have hcell : jsonLexer .dqString cp = .goto .dqString := by
      rw [jsonLexer, stringCell, if_neg hquote, if_neg hback, if_pos (Or.inl (by omega))]
    rw [tableRun, hcell]
    rfl

lemma tableRun_chars (cps : List Nat) :
    tableRun .dqString (cps.flatMap fun cp => charText (some cp)) = some .dqString := by
  induction cps with
  | nil => rfl
  | cons cp cps ih =>
    rw [flatMap_cons, tableRun_append, tableRun_charText]
    exact ih

lemma lexAll_stringText {s : List Nat} (hs : ModUtf8 s) (rest : List Nat)
    (hlen : (stringText s).length ≤ maxTokenSize) :
    lexAll .init (stringText s ++ rest) = ⟨.string, stringText s⟩ :: lexAll .init rest := by
  obtain ⟨cps, hvalid, rfl⟩ := hs
  rw [stringText, charsText_encode cps _ (Nat.le_refl _) hvalid] at hlen ⊢
  have hrun : tableRun .start ([dquote] ++ cps.flatMap fun cp => charText (some cp)) =
      some .dqString := by
    rw [tableRun_append]
    exact tableRun_chars cps
  rw [append_assoc ([dquote] ++ _), JSONLexer.init, lexAll_tableRun _ _ _ _ _ hrun (by
    simp only [length_append, length_nil] at hlen ⊢
    omega)]
  exact lexAll_last _ rest (by decide) (by decide) (by decide)

lemma solid_stringText (s : List Nat) : Solid (stringText s) :=
  ⟨dquote, _, rfl, by decide, by decide⟩

mutual
/-- A tree of dictionaries with distinct keys, lists, integers of 64 bits, booleans and strings in
modified UTF-8. -/
def WellFormed : QObject → Prop
  | .int value => -0x8000000000000000 ≤ value ∧ value ≤ 0x7fffffffffffffff
  | .string value => ModUtf8 value
  | .bool _ => True
  | .float _ => False
  | .dict entries => (entries.map Prod.fst).Nodup ∧ WellFormedEntries entries
  | .list items => WellFormedItems items

def WellFormedEntries : List (List Nat × QObject) → Prop
  | [] => True
  | (key, value) :: entries => ModUtf8 key ∧ WellFormed value ∧ WellFormedEntries entries

def WellFormedItems : List QObject → Prop
  | [] => True
  | value :: items => WellFormed value ∧ WellFormedItems items
end

def comma (first : Bool) : List JSONToken := if first then [] else [op ',']

mutual
def tokensOf : QObject → List JSONToken
  | .int value => [⟨.integer, intText value⟩]
  | .string value => [⟨.string, stringText value⟩]
  | .bool value => [⟨.keyword, if value then ascii "true" else ascii "false"⟩]
  | .float text => [⟨.float, text⟩]
  | .dict entries => [op '{'] ++ entriesTokens true entries ++ [op '}']
  | .list items => [op '['] ++ itemsTokens true items ++ [op ']']

def entriesTokens (first : Bool) : List (List Nat × QObject) → List JSONToken
  | [] => []
  | (key, value) :: entries =>
    comma first ++ [⟨.string, stringText key⟩, op ':'] ++ tokensOf value ++
      entriesTokens false entries

def itemsTokens (first : Bool) : List QObject → List JSONToken
  | [] => []
  | value :: items => comma first ++ tokensOf value ++ itemsTokens false items
end

section
variable (pretty : Bool) (indent : Nat)

lemma solid_toJson {v : QObject} (hv : WellFormed v) : Solid (toJson pretty indent v) := by
  cases v with
  | int value => exact solid_intText value
  | string value => exact solid_stringText value
  | bool value => cases value <;> exact ⟨_, _, rfl, by decide, by decide⟩
  | float text => exact hv.elim
  | dict entries | list items => exact ⟨_, _, rfl, by decide, by decide⟩

lemma blank_newline : ∀ ch ∈ newline pretty indent, Blank ch := by
  intro ch hch
  rw [newline] at hch
  split at hch
  · rcases mem_cons.mp hch with rfl | hch
    · decide
    · rw [eq_of_mem_replicate hch]
      decide
  · cases hch

lemma lexAll_separator (pretty first : Bool) (indent : Nat) (hrest : Solid rest)
    (hlen : (separator first ++ newline pretty indent).length ≤ maxTokenSize) :
    lexAll .init (separator first ++ newline pretty indent ++ rest) =
      comma first ++ lexAll .init rest := by
  have hblank := blank_newline pretty indent
  cases first with
  | true => exact lexAll_blanks hblank hlen hrest
  | false =>
    have hblanks : lexAll .init ((0x20 :: newline pretty indent) ++ rest) = lexAll .init rest := by
      refine lexAll_blanks (fun ch hch => ?_) ?_ hrest
      · rcases mem_cons.mp hch with rfl | hch
        · decide
        · exact hblank ch hch
      · simp only [separator, length_append, length_cons] at hlen ⊢
        simp at hlen
        omega
    calc lexAll .init (separator false ++ newline pretty indent ++ rest)
        = op ',' :: lexAll .init ((0x20 :: newline pretty indent) ++ rest) :=
          lexAll_operator (by decide) _
      _ = comma false ++ lexAll .init rest := by rw [hblanks]; rfl

lemma stops_entries (entries : List (List Nat × QObject))
    (hrest : Stops rest) : Stops (toJsonEntries pretty indent false entries ++ rest) := by
  cases entries with
  | nil => exact hrest
  | cons entry entries =>
    intro ch hch
    cases hch
    exact .inl rfl

lemma stops_items (items : List QObject) (hrest : Stops rest) :
    Stops (toJsonItems pretty indent false items ++ rest) := by
  cases items with
  | nil => exact hrest
  | cons item items =>
    intro ch hch
    cases hch
    exact .inl rfl

lemma stops_newline (hch : Delim ch) (rest : List Nat) :
    Stops (newline pretty indent ++ (ch :: rest)) := by
  intro c hc
  cases pretty <;> cases hc
  · exact hch
  · exact .inr (.inl rfl)

lemma lexAll_close {c : Char}
    (hcell : jsonLexer .start c.toNat = .done .operator) (hsolid : ¬ Blank c.toNat ∧ c.toNat ≤ 0x7F)
    (rest : List Nat) (hlen : (newline pretty indent).length ≤ maxTokenSize) :
    lexAll .init (newline pretty indent ++ (c.toNat :: rest)) = op c :: lexAll .init rest := by
  rw [lexAll_blanks (blank_newline pretty indent) hlen ⟨_, _, rfl, hsolid⟩, lexAll_operator hcell]
end

mutual
lemma lexAll_toJson (pretty : Bool) : ∀ (v : QObject) (indent : Nat) (rest : List Nat),
    WellFormed v → Stops rest → (toJson pretty indent v).length ≤ maxTokenSize →
    lexAll .init (toJson pretty indent v ++ rest) = tokensOf v ++ lexAll .init rest
  | .int value, indent, rest, _, hrest, hlen => lexAll_intText value hrest hlen
  | .string value, indent, rest, hv, _, hlen => lexAll_stringText hv rest hlen
  | .bool true, _, _, _, hrest, hlen => lexAll_keyword tableRun_true hrest hlen
  | .bool false, _, _, _, hrest, hlen => lexAll_keyword tableRun_false hrest hlen
  | .float _, _, _, hv, _, _ => hv.elim
  | .dict entries, indent, rest, hv, _, hlen => by
    rw [toJson] at hlen ⊢
    simp only [length_append] at hlen
    rw [tokensOf]
    simp only [append_assoc, nil_append, cons_append]
    rw [lexAll_operator (by decide), lexAll_toJsonEntries pretty entries true (indent + 1) _ hv.2
      (stops_newline pretty indent (.inr (.inr (.inl rfl))) rest) (by omega),
      lexAll_close pretty indent (by decide) (by decide) rest (by omega)]
  | .list items, indent, rest, hv, _, hlen => by
    rw [toJson] at hlen ⊢
    simp only [length_append] at hlen
    rw [tokensOf]
    simp only [append_assoc, nil_append, cons_append]
    rw [lexAll_operator (by decide), lexAll_toJsonItems pretty items true (indent + 1) _ hv
      (stops_newline pretty indent (.inr (.inr (.inr rfl))) rest) (by omega),
      lexAll_close pretty indent (by decide) (by decide) rest (by omega)]

lemma lexAll_toJsonEntries (pretty : Bool) : ∀ (entries : List (List Nat × QObject)) (first : Bool)
    (indent : Nat) (rest : List Nat), WellFormedEntries entries → Stops rest →
    (toJsonEntries pretty indent first entries).length ≤ maxTokenSize →
    lexAll .init (toJsonEntries pretty indent first entries ++ rest) =
      entriesTokens first entries ++ lexAll .init rest
  | [], _, _, _, _, _, _ => rfl
  | (key, value) :: entries, first, indent, rest, ⟨hkey, hvalue, hentries⟩, hrest, hlen => by
    rw [toJsonEntries] at hlen ⊢
    simp only [length_append] at hlen
    rw [entriesTokens, append_assoc, append_assoc, append_assoc, append_assoc]
    have hcolon : ∀ text, Solid text →
        lexAll .init ([':'.toNat, 0x20] ++ text) = op ':' :: lexAll .init text := by
      intro text htext
      have hblank : lexAll .init ([0x20] ++ text) = lexAll .init text :=
        lexAll_blanks (by decide) (by decide) htext
      rw [cons_append, lexAll_operator (by decide), hblank]
    rw [lexAll_separator pretty first indent ((solid_stringText key).append _)
      (by rw [length_append]; omega), lexAll_stringText hkey _ (by omega),
      hcolon _ ((solid_toJson pretty indent hvalue).append _),
      lexAll_toJson pretty value indent _ hvalue (stops_entries pretty indent entries hrest)
        (by omega),
      lexAll_toJsonEntries pretty entries false indent rest hentries hrest (by omega)]
    simp

lemma lexAll_toJsonItems (pretty : Bool) : ∀ (items : List QObject) (first : Bool) (indent : Nat)
    (rest : List Nat), WellFormedItems items → Stops rest →
    (toJsonItems pretty indent first items).length ≤ maxTokenSize →
    lexAll .init (toJsonItems pretty indent first items ++ rest) =
      itemsTokens first items ++ lexAll .init rest
  | [], _, _, _, _, _, _ => rfl
  | value :: items, first, indent, rest, ⟨hvalue, hitems⟩, hrest, hlen => by
    rw [toJsonItems] at hlen ⊢
    simp only [length_append] at hlen
    rw [itemsTokens, append_assoc, append_assoc]
    rw [lexAll_separator pretty first indent ((solid_toJson pretty indent hvalue).append _)
      (by rw [length_append]; omega),
      lexAll_toJson pretty value indent _ hvalue (stops_items pretty indent items hrest) (by omega),
      lexAll_toJsonItems pretty items false indent rest hitems hrest (by omega)]
    simp
end

lemma processTokens_lexer (lexer : JSONLexer) (tokens : List JSONToken) :
    ∀ parser : JSONMessageParser, processTokens { parser with lexer := lexer } tokens =
        ({ (processTokens parser tokens).1 with lexer := lexer }, (processTokens parser tokens).2) := by
  induction tokens with
  | nil =>
    intro parser
    rfl
  | cons token tokens ih =>
    intro parser
    have hstep : jsonMessageProcessToken { parser with lexer := lexer } token =
        ({ (jsonMessageProcessToken parser token).1 with lexer := lexer },
          (jsonMessageProcessToken parser token).2) := by
      unfold jsonMessageProcessToken
      dsimp only
      split
      · rfl
      split
      · rfl
      split <;> rfl
    simp only [processTokens, hstep, ih]

lemma processTokens_append (tokens tokens' : List JSONToken) : ∀ parser : JSONMessageParser,
    processTokens parser (tokens ++ tokens') =
      ((processTokens (processTokens parser tokens).1 tokens').1,
        (processTokens parser tokens).2 ++ (processTokens (processTokens parser tokens).1 tokens').2) := by
  induction tokens with
  | nil =>
    intro parser
    rfl
  | cons token tokens ih =>
    intro parser
    simp only [cons_append, processTokens, ih, append_assoc]

lemma feedChar_eq (parser : JSONMessageParser) (ch : Nat) (flush : Bool) :
    feedChar parser ch flush =
      ({ (processTokens parser (jsonLexerFeedChar parser.lexer ch flush).2).1 with
          lexer := (jsonLexerFeedChar parser.lexer ch flush).1 },
        (processTokens parser (jsonLexerFeedChar parser.lexer ch flush).2).2) :=
  processTokens_lexer _ _ _

lemma feed_flush_eq (text : List Nat) : ∀ parser : JSONMessageParser,
    (jsonMessageParserFeed parser text).2 ++
        (jsonMessageParserFlush (jsonMessageParserFeed parser text).1).2 =
      (processTokens parser (lexAll parser.lexer text)).2 := by
  induction text with
  | nil =>
    intro parser
    rw [jsonMessageParserFeed, jsonMessageParserFlush, lexAll, nil_append]
    split
    · rfl
    · rw [feedChar_eq]
  | cons ch text ih =>
    intro parser
    rw [lexAll, processTokens_append]
    simp only [jsonMessageParserFeed, append_assoc, ih, feedChar_eq, processTokens_lexer]

end QemuVmi.Qobject
