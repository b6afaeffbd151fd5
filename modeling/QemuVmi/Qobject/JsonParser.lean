import QemuVmi.Qobject.JsonStreamer

/-!
# Parser of JSON

`qobject/json-parser.c`. The functions take tokens from a list that they must not read past:
`parser_context_pop_token` and `parser_context_peek_token` assert that there is a token. A function
that finds something else than it is for puts the tokens back and returns a null pointer.
-/

namespace QemuVmi.Qobject

/-- `QObject`. A float is the text it is read from. A dictionary is the list of its entries. -/
inductive QObject
  | int (value : Int)
  | string (value : List Nat)
  | bool (value : Bool)
  | float (text : List Nat)
  | dict (entries : List (List Nat × QObject))
  | list (items : List QObject)

/-- `qdict_put_obj` -/
def qdictPut (key : List Nat) (value : QObject) :
    List (List Nat × QObject) → List (List Nat × QObject)
  | [] => [(key, value)]
  | entry :: entries =>
    if entry.1 = key then (key, value) :: entries else entry :: qdictPut key value entries

/-- The messages of `parse_error`. -/
inductive ParseError
  | invalidHexEscape
  | invalidEscape
  | keyNotString
  | missingColon
  | missingValue
  | expectedSeparatorInDict
  | expectedSeparatorInList
  | expectingValue
  | invalidKeyword (keyword : List Nat)
deriving DecidableEq, Repr

def ParseError.text : ParseError → List Nat
  | .invalidHexEscape => ascii "invalid hex escape sequence in string"
  | .invalidEscape => ascii "invalid escape sequence in string"
  | .keyNotString => ascii "key is not a string in object"
  | .missingColon => ascii "missing : in object pair"
  | .missingValue => ascii "Missing value in dict"
  | .expectedSeparatorInDict => ascii "expected separator in dict"
  | .expectedSeparatorInList => ascii "expected separator in list"
  | .expectingValue => ascii "expecting value"
  | .invalidKeyword keyword => ascii "invalid keyword `" ++ keyword ++ [squote]

/-- `JSONParserContext`: the tokens that are left, `err`, and how many arguments were taken from
`ap`. -/
structure Context where
  tokens : List JSONToken
  err : Option ParseError
  args : Nat

/-- `parser_context_restore` -/
def Context.restore (ctxt saved : Context) : Context := { ctxt with tokens := saved.tokens }

section
variable (ctxt : Context)

/-- `parse_error`: the last message is kept. -/
def Context.error (err : ParseError) : Context := { ctxt with err := some err }

/-- `ap`, if there is one: the object that is made of an argument, for the text of the escape and the
number of the argument. -/
abbrev VaList := Option (List Nat → Nat → QObject)

inductive Result (α : Type)
  | ok (value : α) (ctxt : Context)
  | null (ctxt : Context)
  | abort

/-- `if (obj == NULL) obj = next(ctxt)` -/
def Result.orElse {α : Type} (r : Result α) (next : Context → Result α) : Result α :=
  match r with
  | .null ctxt => next ctxt
  | r => r

@[simp] lemma Result.null_orElse {α : Type} (next : Context → Result α) :
    (Result.null ctxt).orElse next = next ctxt := rfl

@[simp] lemma Result.ok_orElse {α : Type} (value : α) (ctxt : Context)
    (next : Context → Result α) : (Result.ok value ctxt).orElse next = .ok value ctxt := rfl

@[simp] lemma Result.abort_orElse {α : Type} (next : Context → Result α) :
    Result.abort.orElse next = .abort := rfl

/-- `parser_context_peek_token` and `parser_context_pop_token`. -/
def Context.pop : Option (JSONToken × Context) :=
  match ctxt.tokens with
  | [] => none
  | token :: tokens => some (token, { ctxt with tokens := tokens })

/-- `token_is_operator` -/
def JSONToken.isOperator (token : JSONToken) (op : Char) : Bool :=
  decide (token.type = .operator) && decide (token.text = [op.toNat])

/-- `wchar_to_utf8`: the octets up to the zero that ends the buffer. -/
def wcharToUtf8 (wchar : Nat) : List Nat :=
  if wchar ≤ 0x7F then
    if wchar &&& 0x7F = 0 then [] else [wchar &&& 0x7F]
  else if wchar ≤ 0x7FF then [0xC0 ||| ((wchar >>> 6) &&& 0x1F), 0x80 ||| (wchar &&& 0x3F)]
  else
    [0xE0 ||| ((wchar >>> 12) &&& 0x0F), 0x80 ||| ((wchar >>> 6) &&& 0x3F), 0x80 ||| (wchar &&& 0x3F)]

def hex2decimal (ch : Nat) : Nat :=
  if Between '0' '9' ch then ch - '0'.toNat
  else if Between 'a' 'f' ch then 10 + (ch - 'a'.toNat)
  else 10 + (ch - 'A'.toNat)

/-- The character after a backslash, where it is not `u`. -/
def unescape (ch : Nat) : Option Nat :=
  if ch = dquote ∨ ch = squote ∨ ch = backslash ∨ ch = '/'.toNat then some ch
  else if ch = 'b'.toNat then some 0x08
  else if ch = 'f'.toNat then some 0x0c
  else if ch = 'n'.toNat then some 0x0a
  else if ch = 'r'.toNat then some 0x0d
  else if ch = 't'.toNat then some 0x09
  else none

/-- The loop of `qstring_from_escaped_str` at `ptr`. The text ends with a zero octet, which no digit
or escape is equal to. -/
def unescapeLoop (quote : Nat) : List Nat → List Nat → Except ParseError (List Nat)
  | [], str => .ok str
  | ch :: ptr, str =>
    if ch = 0 ∨ ch = quote then .ok str
    else if ch = backslash then
      match ptr with
      | [] => .error .invalidEscape
      | esc :: ptr =>
        if esc = 'u'.toNat then
          match ptr with
          | a :: b :: c :: d :: ptr =>
            if HexDigit a ∧ HexDigit b ∧ HexDigit c ∧ HexDigit d then
              let wchar := (hex2decimal a <<< 12) ||| (hex2decimal b <<< 8) |||
                (hex2decimal c <<< 4) ||| hex2decimal d
              unescapeLoop quote ptr (str ++ wcharToUtf8 wchar)
            else .error .invalidHexEscape
          | _ => .error .invalidHexEscape
        else
          match unescape esc with
          | some octet => unescapeLoop quote ptr (str ++ [octet])
          | none => .error .invalidEscape
    else unescapeLoop quote ptr (str ++ [ch])

def qstringFromEscapedStr (text : List Nat) : Except ParseError (List Nat) :=
  match text with
  | [] => .ok []
  | ch :: ptr => unescapeLoop (if ch = dquote then dquote else squote) ptr []

def digitsValue : List Nat → Nat → Nat
  | [], value => value
  | c :: text, value =>
    if Between '0' '9' c then digitsValue text (value * 10 + (c - '0'.toNat)) else value

/-- `strtoll` to base 10 on the text of an integer token, `none` for `ERANGE`. -/
def strtoll (text : List Nat) : Option Int :=
  let value : Int :=
    match text with
    | [] => 0
    | c :: rest =>
      if c = '-'.toNat then -(digitsValue rest 0 : Int) else (digitsValue (c :: rest) 0 : Int)
  if -0x8000000000000000 ≤ value ∧ value ≤ 0x7fffffffffffffff then some value else none

def parseKeyword : Result QObject :=
  match ctxt.pop with
  | none => .abort
  | some (token, next) =>
    if token.type ≠ .keyword then .null (next.restore ctxt)
    else if token.text = ascii "true" then .ok (.bool true) next
    else if token.text = ascii "false" then .ok (.bool false) next
    else .null ((next.error (.invalidKeyword token.text)).restore ctxt)

/-- The texts that `parse_escape` knows. -/
def knownEscapes : List (List Nat) :=
  [ascii "%p", ascii "%i", ascii "%d", ascii "%ld", ascii "%lld", ascii "%I64d", ascii "%s",
    ascii "%f"]

def parseEscape (ap : VaList) (ctxt : Context) : Result QObject :=
  match ap with
  | none => .null ctxt
  | some arg =>
    match ctxt.pop with
    | none => .abort
    | some (token, next) =>
      if token.type = .escape ∧ token.text ∈ knownEscapes then
        .ok (arg token.text ctxt.args) { next with args := next.args + 1 }
      else .null (next.restore ctxt)

/-- `parse_literal`. It does not put the token of a string back when the string is malformed. -/
def parseLiteral : Result QObject :=
  match ctxt.pop with
  | none => .abort
  | some (token, next) =>
    match token.type with
    | .string =>
      match qstringFromEscapedStr token.text with
      | .ok value => .ok (.string value) next
      | .error err => .null (next.error err)
    | .integer =>
      match strtoll token.text with
      | some value => .ok (.int value) next
      | none => .ok (.float token.text) next
    | .float => .ok (.float token.text) next
    | _ => .null (next.restore ctxt)
end

/-- The rules that look at one token. -/
def parseScalar (ap : VaList) (ctxt : Context) : Result QObject :=
  ((parseEscape ap ctxt).orElse parseKeyword).orElse parseLiteral

/-! The functions that call each other take the number of calls that may be nested, which is enough
for the tokens that are left (`parseValue_fuel`). -/

mutual
def parseValue (ap : VaList) : Nat → Context → Result QObject
  | 0, _ => .abort
  | n + 1, ctxt =>
    ((parseObject ap n ctxt).orElse fun ctxt => parseArray ap n ctxt).orElse (parseScalar ap)

def parsePair (ap : VaList) : Nat → List (List Nat × QObject) → Context →
    Result (List (List Nat × QObject))
  | 0, _, _ => .abort
  | n + 1, dict, ctxt =>
    match ctxt.pop with
    | none => .abort
    | some _ =>
      match parseValue ap n ctxt with
      | .abort => .abort
      | .ok (.string key) ctxt₁ =>
        match ctxt₁.pop with
        | none => .abort
        | some (token, ctxt₂) =>
          if token.isOperator ':' then
            match parseValue ap n ctxt₂ with
            | .abort => .abort
            | .ok value ctxt₃ => .ok (qdictPut key value dict) ctxt₃
            | .null ctxt₃ => .null ((ctxt₃.error .missingValue).restore ctxt)
          else .null ((ctxt₂.error .missingColon).restore ctxt)
      | .ok _ ctxt₁ => .null ((ctxt₁.error .keyNotString).restore ctxt)
      | .null ctxt₁ => .null ((ctxt₁.error .keyNotString).restore ctxt)

def parsePairs (ap : VaList) : Nat → List (List Nat × QObject) → Context →
    Result (List (List Nat × QObject))
  | 0, _, _ => .abort
  | n + 1, dict, ctxt =>
    match ctxt.pop with
    | none => .abort
    | some (token, ctxt₁) =>
      if token.isOperator '}' then .ok dict ctxt₁
      else if token.isOperator ',' then
        match parsePair ap n dict ctxt₁ with
        | .abort => .abort
        | .null ctxt₂ => .null ctxt₂
        | .ok dict ctxt₂ => parsePairs ap n dict ctxt₂
      else .null (ctxt₁.error .expectedSeparatorInDict)

def parseObject (ap : VaList) : Nat → Context → Result QObject
  | 0, _ => .abort
  | n + 1, ctxt =>
    match ctxt.pop with
    | none => .abort
    | some (token, ctxt₁) =>
      if token.isOperator '{' then
        match ctxt₁.pop with
        | none => .abort
        | some (peek, ctxt₂) =>
          if peek.isOperator '}' then .ok (.dict []) ctxt₂
          else
            match parsePair ap n [] ctxt₁ with
            | .abort => .abort
            | .null ctxt₃ => .null (ctxt₃.restore ctxt)
            | .ok dict ctxt₃ =>
              match parsePairs ap n dict ctxt₃ with
              | .abort => .abort
              | .null ctxt₄ => .null (ctxt₄.restore ctxt)
              | .ok dict ctxt₄ => .ok (.dict dict) ctxt₄
      else .null (ctxt₁.restore ctxt)

def parseValues (ap : VaList) : Nat → List QObject → Context → Result (List QObject)
  | 0, _, _ => .abort
  | n + 1, list, ctxt =>
    match ctxt.pop with
    | none => .abort
    | some (token, ctxt₁) =>
      if token.isOperator ']' then .ok list ctxt₁
      else if token.isOperator ',' then
        match parseValue ap n ctxt₁ with
        | .abort => .abort
        | .null ctxt₂ => .null (ctxt₂.error .expectingValue)
        | .ok obj ctxt₂ => parseValues ap n (list ++ [obj]) ctxt₂
      else .null (ctxt₁.error .expectedSeparatorInList)

def parseArray (ap : VaList) : Nat → Context → Result QObject
  | 0, _ => .abort
  | n + 1, ctxt =>
    match ctxt.pop with
    | none => .abort
    | some (token, ctxt₁) =>
      if token.isOperator '[' then
        match ctxt₁.pop with
        | none => .abort
        | some (peek, ctxt₂) =>
          if peek.isOperator ']' then .ok (.list []) ctxt₂
          else
            match parseValue ap n ctxt₁ with
            | .abort => .abort
            | .null ctxt₃ => .null ((ctxt₃.error .expectingValue).restore ctxt)
            | .ok obj ctxt₃ =>
              match parseValues ap n [obj] ctxt₃ with
              | .abort => .abort
              | .null ctxt₄ => .null (ctxt₄.restore ctxt)
              | .ok list ctxt₄ => .ok (.list list) ctxt₄
      else .null (ctxt₁.restore ctxt)
end

def fuelFor (tokens : List JSONToken) : Nat := 3 * tokens.length + 3

/-- What `json_parser_parse_err` returns: an object or a null pointer, with the error if there was
one. -/
inductive Parsed
  | value (obj : QObject) (err : Option ParseError)
  | null (err : Option ParseError)
  | abort

def jsonParserParseErr (tokens : Option (List JSONToken)) (ap : VaList) : Parsed :=
  match tokens with
  | none => .null none
  | some [] => .null none
  | some tokens =>
    match parseValue ap (fuelFor tokens) ⟨tokens, none, 0⟩ with
    | .ok obj ctxt => .value obj ctxt.err
    | .null ctxt => .null ctxt.err
    | .abort => .abort

end QemuVmi.Qobject
