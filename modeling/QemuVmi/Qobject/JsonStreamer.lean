import Mathlib

/-!
# Lexer and streamer of JSON

`qobject/json-lexer.c` and `qobject/json-streamer.c`. The lexer is a table; a token that ends before
a character is emitted, and the character is looked at again. The streamer counts braces and brackets
and hands the tokens over when both counts are zero, one is negative or a limit is exceeded. An octet
is a natural number: the table refuses those above 255 as it refuses 255.
-/

namespace QemuVmi.Qobject

def dquote : Nat := 0x22

def squote : Nat := 0x27

def backslash : Nat := 0x5c

/-- `[lo ... hi]` in an initializer. -/
def Between (lo hi : Char) (c : Nat) : Prop := lo.toNat ≤ c ∧ c ≤ hi.toNat

instance (lo hi : Char) (c : Nat) : Decidable (Between lo hi c) :=
  inferInstanceAs (Decidable (_ ∧ _))

def HexDigit (c : Nat) : Prop := Between '0' '9' c ∨ Between 'a' 'f' c ∨ Between 'A' 'F' c

instance (c : Nat) : Decidable (HexDigit c) := inferInstanceAs (Decidable (_ ∨ _))

def ascii (text : String) : List Nat := text.toList.map Char.toNat

/-- `enum json_lexer_state` -/
inductive LexState
  | error
  | dqUcode3 | dqUcode2 | dqUcode1 | dqUcode0 | dqStringEscape | dqString
  | sqUcode3 | sqUcode2 | sqUcode1 | sqUcode0 | sqStringEscape | sqString
  | zero | digits | digit | expE | mantissa | mantissaDigits | nonzeroNumber | negNonzeroNumber
  | keyword
  | escape | escapeL | escapeLL | escapeI | escapeI6 | escapeI64
  | whitespace | start
deriving DecidableEq, Repr

/-- `JSONTokenType`. A token that gets too long is emitted with the state of the lexer as its type. -/
inductive TokenType
  | operator | integer | float | keyword | string | escape | skip | error
  | state (state : LexState)
deriving DecidableEq, Repr

inductive Cell
  | goto (state : LexState)
  | done (type : TokenType)
deriving DecidableEq, Repr

/-- `qemu_isxdigit` steps of `\uXXXX`. -/
def hexCell (next : LexState) (c : Nat) : Cell := if HexDigit c then .goto next else .goto .error

/-- The body of a string that `quote` ends. -/
def stringCell (quote : Nat) (inString inEscape : LexState) (c : Nat) : Cell :=
  if c = quote then .done .string
  else if c = backslash then .goto inEscape
  else if (1 ≤ c ∧ c ≤ 0xBF) ∨ (0xC2 ≤ c ∧ c ≤ 0xF4) then .goto inString
  else .goto .error

def SimpleEscape (c : Nat) : Prop :=
  c = 'b'.toNat ∨ c = 'f'.toNat ∨ c = 'n'.toNat ∨ c = 'r'.toNat ∨ c = 't'.toNat

instance (c : Nat) : Decidable (SimpleEscape c) := inferInstanceAs (Decidable (_ ∨ _))

def Blank (c : Nat) : Prop := c = 0x20 ∨ c = 0x09 ∨ c = 0x0d ∨ c = 0x0a

instance (c : Nat) : Decidable (Blank c) := inferInstanceAs (Decidable (_ ∨ _))

/-- `TERMINAL`: the characters that end a token of the type, after the entries that override it. -/
def terminal (type : TokenType) (c : Nat) : Cell :=
  if c ≤ 0x7F then .done type else .goto .error

def jsonLexer (state : LexState) (c : Nat) : Cell :=
  match state with
  | .error => .goto .error
  | .dqUcode3 => hexCell .dqString c
  | .dqUcode2 => hexCell .dqUcode3 c
  | .dqUcode1 => hexCell .dqUcode2 c
  | .dqUcode0 => hexCell .dqUcode1 c
  | .dqStringEscape =>
    if SimpleEscape c ∨ c = '/'.toNat ∨ c = backslash ∨ c = squote ∨ c = dquote then .goto .dqString
    else if c = 'u'.toNat then .goto .dqUcode0
    else .goto .error
  | .dqString => stringCell dquote .dqString .dqStringEscape c
  | .sqUcode3 => hexCell .sqString c
  | .sqUcode2 => hexCell .sqUcode3 c
  | .sqUcode1 => hexCell .sqUcode2 c
  | .sqUcode0 => hexCell .sqUcode1 c
  | .sqStringEscape =>
    if SimpleEscape c ∨ c = squote ∨ c = dquote then .goto .sqString
    -- these two go to a string in double quotes
    else if c = '/'.toNat ∨ c = backslash then .goto .dqString
    else if c = 'u'.toNat then .goto .sqUcode0
    else .goto .error
  | .sqString => stringCell squote .sqString .sqStringEscape c
  | .zero =>
    if c = '.'.toNat then .goto .mantissa
    else if Between '0' '9' c then .goto .error
    else terminal .integer c
  | .digits => if Between '0' '9' c then .goto .digits else terminal .float c
  | .digit => if Between '0' '9' c then .goto .digits else .goto .error
  | .expE =>
    if c = '-'.toNat ∨ c = '+'.toNat then .goto .digit
    else if Between '0' '9' c then .goto .digits
    else .goto .error
  | .mantissaDigits =>
    if Between '0' '9' c then .goto .mantissaDigits
    else if c = 'e'.toNat ∨ c = 'E'.toNat then .goto .expE
    else terminal .float c
  | .mantissa => if Between '0' '9' c then .goto .mantissaDigits else .goto .error
  | .nonzeroNumber =>
    if Between '0' '9' c then .goto .nonzeroNumber
    else if c = 'e'.toNat ∨ c = 'E'.toNat then .goto .expE
    else if c = '.'.toNat then .goto .mantissa
    else terminal .integer c
  | .negNonzeroNumber =>
    if c = '0'.toNat then .goto .zero
    else if Between '1' '9' c then .goto .nonzeroNumber
    else .goto .error
  | .keyword => if Between 'a' 'z' c then .goto .keyword else terminal .keyword c
  | .whitespace => if Blank c then .goto .whitespace else terminal .skip c
  | .escapeLL => if c = 'd'.toNat then .done .escape else .goto .error
  | .escapeL =>
    if c = 'd'.toNat then .done .escape
    else if c = 'l'.toNat then .goto .escapeLL
    else .goto .error
  | .escapeI64 => if c = 'd'.toNat then .done .escape else .goto .error
  | .escapeI6 => if c = '4'.toNat then .goto .escapeI64 else .goto .error
  | .escapeI => if c = '6'.toNat then .goto .escapeI6 else .goto .error
  | .escape =>
    if c = 'd'.toNat ∨ c = 'i'.toNat ∨ c = 'p'.toNat ∨ c = 's'.toNat ∨ c = 'f'.toNat then
      .done .escape
    else if c = 'l'.toNat then .goto .escapeL
    else if c = 'I'.toNat then .goto .escapeI
    else .goto .error
  | .start =>
    if c = dquote then .goto .dqString
    else if c = squote then .goto .sqString
    else if c = '0'.toNat then .goto .zero
    else if Between '1' '9' c then .goto .nonzeroNumber
    else if c = '-'.toNat then .goto .negNonzeroNumber
    else if c = '{'.toNat ∨ c = '}'.toNat ∨ c = '['.toNat ∨ c = ']'.toNat ∨ c = ','.toNat ∨
        c = ':'.toNat then .done .operator
    else if Between 'a' 'z' c then .goto .keyword
    else if c = '%'.toNat then .goto .escape
    else if Blank c then .goto .whitespace
    else .goto .error

structure JSONToken where
  type : TokenType
  text : List Nat
deriving DecidableEq, Repr

structure JSONLexer where
  state : LexState
  token : List Nat
deriving DecidableEq, Repr

/-- `json_lexer_init` -/
def JSONLexer.init : JSONLexer := ⟨.start, []⟩

def maxTokenSize : Nat := 64 * 1024 * 1024

def terminalNeededLookahead (state : LexState) (cell : Cell) : Bool := jsonLexer state 0 = cell

/-- One round of the loop of `json_lexer_feed_char`. -/
structure Round where
  lexer : JSONLexer
  emitted : List JSONToken
  charConsumed : Bool
  returned : Bool

section
variable (lexer : JSONLexer)

def feedRound (ch : Nat) : Round :=
  let cell := jsonLexer lexer.state ch
  let charConsumed := !terminalNeededLookahead lexer.state cell
  let token := if charConsumed then lexer.token ++ [ch] else lexer.token
  match cell with
  | .done .skip => ⟨.init, [], charConsumed, false⟩
  | .done type => ⟨.init, [⟨type, token⟩], charConsumed, false⟩
  | .goto .error => ⟨.init, [⟨.error, token⟩], charConsumed, true⟩
  | .goto state => ⟨⟨state, token⟩, [], charConsumed, false⟩

/-- The end of `json_lexer_feed_char`: a token must not get too long. -/
def limitToken : JSONLexer × List JSONToken :=
  if lexer.token.length > maxTokenSize then (.init, [⟨.state lexer.state, lexer.token⟩])
  else (lexer, [])

/-- `json_lexer_feed_char`: the lexer after it, and the tokens that are emitted. A second round is the
last one (`feedRound_start`). -/
def jsonLexerFeedChar (ch : Nat) (flush : Bool) : JSONLexer × List JSONToken :=
  let first := feedRound lexer ch
  if first.returned then (first.lexer, first.emitted)
  else if first.charConsumed || flush then
    let (lexer, limit) := limitToken first.lexer
    (lexer, first.emitted ++ limit)
  else
    let second := feedRound first.lexer ch
    if second.returned then (second.lexer, first.emitted ++ second.emitted)
    else
      let (lexer, limit) := limitToken second.lexer
      (lexer, first.emitted ++ second.emitted ++ limit)
end

lemma feedRound_start (ch : Nat) (token : List Nat) :
    (feedRound ⟨.start, token⟩ ch).returned = true ∨
      (feedRound ⟨.start, token⟩ ch).charConsumed = true := by
  have hzero : jsonLexer .start 0 = .goto .error := by decide
  cases hcell : jsonLexer .start ch with
  | done type =>
    right
    cases type <;> simp [feedRound, terminalNeededLookahead, hcell, hzero]
  | goto state =>
    by_cases herror : state = .error
    · left
      simp [feedRound, hcell, herror]
    · right
      cases state <;> simp_all [feedRound, terminalNeededLookahead]

def maxNesting : Int := 1024

structure JSONMessageParser where
  lexer : JSONLexer
  braceCount : Int
  bracketCount : Int
  tokens : List JSONToken
  tokenSize : Nat
deriving DecidableEq, Repr

/-- `json_message_parser_init` -/
def JSONMessageParser.init : JSONMessageParser := ⟨.init, 0, 0, [], 0⟩

/-- How a token changes `brace_count`. -/
def JSONToken.braces (token : JSONToken) : Int :=
  if token.type = .operator then
    if token.text.head? = some '{'.toNat then 1
    else if token.text.head? = some '}'.toNat then -1
    else 0
  else 0

/-- How a token changes `bracket_count`. -/
def JSONToken.brackets (token : JSONToken) : Int :=
  if token.type = .operator then
    if token.text.head? = some '['.toNat then 1
    else if token.text.head? = some ']'.toNat then -1
    else 0
  else 0

section
variable (parser : JSONMessageParser)

/-- `json_message_process_token`: the parser after it, and the list that is emitted if there is one:
no list for a token that is an error. -/
def jsonMessageProcessToken (token : JSONToken) :
    JSONMessageParser × List (Option (List JSONToken)) :=
  let braceCount := parser.braceCount + token.braces
  let bracketCount := parser.bracketCount + token.brackets
  let tokenSize := parser.tokenSize + token.text.length
  let tokens := parser.tokens ++ [token]
  let reset : JSONMessageParser := ⟨parser.lexer, 0, 0, [], 0⟩
  if token.type = .error then (reset, [none])
  else if braceCount < 0 ∨ bracketCount < 0 ∨ (braceCount = 0 ∧ bracketCount = 0) then
    (reset, [some tokens])
  else if tokenSize > maxTokenSize ∨ bracketCount > maxNesting ∨ braceCount > maxNesting then
    (reset, [some tokens])
  else (⟨parser.lexer, braceCount, bracketCount, tokens, tokenSize⟩, [])

def processTokens (parser : JSONMessageParser) :
    List JSONToken → JSONMessageParser × List (Option (List JSONToken))
  | [] => (parser, [])
  | token :: tokens =>
    let (parser, emitted) := jsonMessageProcessToken parser token
    let (parser, emitted') := processTokens parser tokens
    (parser, emitted ++ emitted')

def feedChar (ch : Nat) (flush : Bool) : JSONMessageParser × List (Option (List JSONToken)) :=
  let (lexer, tokens) := jsonLexerFeedChar parser.lexer ch flush
  processTokens { parser with lexer := lexer } tokens

def jsonMessageParserFeed (parser : JSONMessageParser) :
    List Nat → JSONMessageParser × List (Option (List JSONToken))
  | [] => (parser, [])
  | ch :: buffer =>
    let (parser, emitted) := feedChar parser ch false
    let (parser, emitted') := jsonMessageParserFeed parser buffer
    (parser, emitted ++ emitted')

def jsonMessageParserFlush : JSONMessageParser × List (Option (List JSONToken)) :=
  if parser.lexer.state = .start then (parser, []) else feedChar parser 0 true
end

end QemuVmi.Qobject
