import QemuVmi.Qobject.JsonSafety
import QemuVmi.Qobject.JsonLexing

/-!
# Reading back a printed tree

`qobject_from_json` after `qobject_to_json` or `qobject_to_json_pretty`. Inside a container the
streamer only holds the tokens, so that the parser gets the tokens of the whole tree; it then rebuilds
the tree with each string as the parser unescapes it.

Results:
1. `processTokens_tokensOf`: the streamer emits the tokens of a tree in one list.
2. `parseValue_tokensOf`: the parser rebuilds the tree from them.
3. `round_trip_iff`: the tree is equal to the one that was printed exactly when no string and no key
   has U+0000 or a character beyond the basic plane.
-/

namespace QemuVmi.Qobject

open List

/-! ## Streamer -/

mutual
def depth : QObject → Nat
  | .dict entries => depthEntries entries + 1
  | .list items => depthItems items + 1
  | .int _ => 0
  | .string _ => 0
  | .bool _ => 0
  | .float _ => 0

def depthEntries : List (List Nat × QObject) → Nat
  | [] => 0
  | (_, value) :: entries => max (depth value) (depthEntries entries)

def depthItems : List QObject → Nat
  | [] => 0
  | value :: items => max (depth value) (depthItems items)
end

section
variable (parser : JSONMessageParser)

def after (tokens : List JSONToken) : JSONMessageParser :=
  ⟨parser.lexer, parser.braceCount + braceSum tokens, parser.bracketCount + bracketSum tokens,
    parser.tokens ++ tokens, parser.tokenSize + sizeSum tokens⟩

def Held (tokens : List JSONToken) : Prop :=
  processTokens parser tokens = (after parser tokens, [])

/-- Inside a container, with room for `depth` more levels and for the tokens. -/
structure Room (parser : JSONMessageParser) (depth : Nat) (tokens : List JSONToken) : Prop where
  brace : 0 ≤ parser.braceCount
  bracket : 0 ≤ parser.bracketCount
  inside : 1 ≤ parser.braceCount + parser.bracketCount
  braces : parser.braceCount + depth ≤ maxNesting
  brackets : parser.bracketCount + depth ≤ maxNesting
  size : parser.tokenSize + sizeSum tokens ≤ maxTokenSize

lemma sizeSum_append (a b : List JSONToken) : sizeSum (a ++ b) = sizeSum a + sizeSum b := by
  rw [sizeSum, map_append, sum_append]
  rfl

lemma after_append (a b : List JSONToken) : after (after parser a) b = after parser (a ++ b) := by
  simp only [after, braceSum_append, bracketSum_append, sizeSum_append, append_assoc,
    add_assoc, add_assoc]
end

variable {parser : JSONMessageParser} {a b tokens rest : List JSONToken} {l r token : JSONToken}
  {d n : Nat} {s key : List Nat}

lemma Held.append (ha : Held parser a) (hb : Held (after parser a) b) : Held parser (a ++ b) := by
  unfold Held at *
  rw [processTokens_append, ha, hb, after_append]
  rfl

def Balanced (tokens : List JSONToken) : Prop := braceSum tokens = 0 ∧ bracketSum tokens = 0

instance (tokens : List JSONToken) : Decidable (Balanced tokens) :=
  inferInstanceAs (Decidable (_ ∧ _))

lemma Balanced.append (ha : Balanced a) (hb : Balanced b) : Balanced (a ++ b) := by
  unfold Balanced at *
  rw [braceSum_append, bracketSum_append]
  omega

lemma balanced_comma (first : Bool) : Balanced (comma first) := by cases first <;> decide

variable {type : TokenType}

lemma balanced_of_type_ne (h : type ≠ .operator) (text : List Nat) : Balanced [⟨type, text⟩] := by
  obtain ⟨hbrace, hbracket⟩ := counts_of_type_ne ⟨type, text⟩ h
  simp [Balanced, hbrace, hbracket]

structure Pair (l r : JSONToken) : Prop where
  left : l.type ≠ .error
  right : r.type ≠ .error
  opens : (braceSum [l] = 1 ∧ bracketSum [l] = 0) ∨ (braceSum [l] = 0 ∧ bracketSum [l] = 1)
  closes : braceSum [r] = -braceSum [l] ∧ bracketSum [r] = -bracketSum [l]

lemma pair_braces : Pair (op '{') (op '}') := ⟨by decide, by decide, by decide, by decide⟩

lemma pair_brackets : Pair (op '[') (op ']') := ⟨by decide, by decide, by decide, by decide⟩

lemma Pair.balanced (h : Pair l r) (hbalanced : Balanced tokens) :
    Balanced ([l] ++ tokens ++ [r]) := by
  have hcloses := h.closes
  unfold Balanced at *
  simp only [braceSum_append, bracketSum_append]
  omega

lemma balanced_key (key : List Nat) : Balanced [⟨.string, stringText key⟩, op ':'] :=
  Balanced.append (a := [_]) (balanced_of_type_ne (by decide) _) (by decide)

mutual
lemma balanced_tokensOf : ∀ v : QObject, Balanced (tokensOf v)
  | .int _ | .string _ | .bool _ | .float _ => balanced_of_type_ne (by decide) _
  | .dict entries => pair_braces.balanced (balanced_entriesTokens true entries)
  | .list items => pair_brackets.balanced (balanced_itemsTokens true items)

lemma balanced_entriesTokens (first : Bool) :
    ∀ entries : List (List Nat × QObject), Balanced (entriesTokens first entries)
  | [] => ⟨rfl, rfl⟩
  | (key, value) :: entries =>
    (((balanced_comma first).append (balanced_key key)).append (balanced_tokensOf value)).append
      (balanced_entriesTokens false entries)

lemma balanced_itemsTokens (first : Bool) :
    ∀ items : List QObject, Balanced (itemsTokens first items)
  | [] => ⟨rfl, rfl⟩
  | value :: items =>
    ((balanced_comma first).append (balanced_tokensOf value)).append
      (balanced_itemsTokens false items)
end

lemma held_token (htype : token.type ≠ .error) (h : Room (after parser [token]) d []) :
    Held parser [token] := by
  obtain ⟨hbrace, hbracket, hinside, hbraces, hbrackets, hsize⟩ := h
  simp only [after, braceSum_cons, braceSum_nil, bracketSum_cons, bracketSum_nil, add_zero,
    sizeSum, map_cons, map_nil, sum_cons, sum_nil, add_zero] at *
  have hclosed : ¬ (parser.braceCount + token.braces < 0 ∨ parser.bracketCount + token.brackets < 0 ∨
      (parser.braceCount + token.braces = 0 ∧ parser.bracketCount + token.brackets = 0)) := by omega
  have hlimit : ¬ (parser.tokenSize + token.text.length > maxTokenSize ∨
      parser.bracketCount + token.brackets > maxNesting ∨
      parser.braceCount + token.braces > maxNesting) := by omega
  rw [Held, processTokens, jsonMessageProcessToken, if_neg htype, if_neg hclosed, if_neg hlimit]
  simp [after, processTokens, sizeSum]

variable {n d' : Nat}

lemma Room.first (h : Room parser d (a ++ b)) (hd : d' ≤ d) : Room parser d' a := by
  obtain ⟨hbrace, hbracket, hinside, hbraces, hbrackets, hsize⟩ := h
  rw [sizeSum_append] at hsize
  constructor <;> omega

lemma Room.last (h : Room parser d (a ++ b)) (ha : Balanced a) (hd : d' ≤ d) :
    Room (after parser a) d' b := by
  obtain ⟨hbrace, hbracket, hinside, hbraces, hbrackets, hsize⟩ := h
  rw [sizeSum_append] at hsize
  constructor <;> simp only [after, ha.1, ha.2] <;> omega

lemma held_neutral (htype : token.type ≠ .error) (hbalanced : Balanced [token])
    (h : Room parser d [token]) : Held parser [token] :=
  held_token htype (h.last (b := []) hbalanced (le_refl d))

lemma held_scalar (htype : type ≠ .operator ∧ type ≠ .error) (text : List Nat)
    (h : Room parser d [⟨type, text⟩]) : Held parser [⟨type, text⟩] :=
  held_neutral htype.2 (balanced_of_type_ne htype.1 text) h

lemma Pair.held (h : Pair l r) (hroom : Room parser (d + 1) ([l] ++ tokens ++ [r]))
    (hbalanced : Balanced tokens)
    (hheld : Room (after parser [l]) d tokens → Held (after parser [l]) tokens) :
    Held parser ([l] ++ tokens ++ [r]) := by
  obtain ⟨hbrace, hbracket, hinside, hbraces, hbrackets, hsize⟩ := hroom
  obtain ⟨hleft, hright, hopens, hcloses⟩ := h
  rw [sizeSum_append, sizeSum_append] at hsize
  have hsizes := sizeSum_append tokens [r]
  -- one level deeper, with room for one level less
  have hinner : Room (after parser [l]) d (tokens ++ [r]) := by
    constructor <;> simp only [after] <;> omega
  have hopen : Held parser [l] := held_token hleft (hinner.first (a := []) (le_refl d))
  have htokens := hheld (hinner.first (le_refl d))
  have hclose : Held (after parser ([l] ++ tokens)) [r] := by
    refine held_token (d := d) hright ?_
    constructor <;>
      simp only [after, braceSum_append, bracketSum_append, sizeSum_append, hbalanced.1,
        hbalanced.2] <;>
      simp only [sizeSum, map_nil, sum_nil] at * <;> omega
  exact (hopen.append htokens).append hclose

lemma held_comma (first : Bool) (h : Room parser d (comma first)) :
    Held parser (comma first) := by
  cases first with
  | true =>
    rw [Held, after]
    simp [comma, processTokens, sizeSum]
  | false => exact held_neutral (by decide) (by decide) h

lemma held_key (key : List Nat) (h : Room parser d [⟨.string, stringText key⟩, op ':']) :
    Held parser [⟨.string, stringText key⟩, op ':'] := by
  have hstring : Balanced [(⟨.string, stringText key⟩ : JSONToken)] :=
    balanced_of_type_ne (by decide) _
  have hfirst : Room parser d ([⟨.string, stringText key⟩] ++ [op ':']) := h
  exact (held_scalar (by decide) _ (hfirst.first (le_refl d))).append
    (held_neutral (by decide) (by decide) (hfirst.last hstring (le_refl d)))

mutual
lemma held_tokensOf : ∀ (v : QObject) (parser : JSONMessageParser),
    Room parser (depth v) (tokensOf v) → Held parser (tokensOf v)
  | .int _, _, h | .string _, _, h | .bool _, _, h | .float _, _, h => held_scalar (by decide) _ h
  | .dict entries, _, h =>
    pair_braces.held h (balanced_entriesTokens true entries) (held_entriesTokens entries true _)
  | .list items, _, h =>
    pair_brackets.held h (balanced_itemsTokens true items) (held_itemsTokens items true _)

lemma held_entriesTokens : ∀ (entries : List (List Nat × QObject)) (first : Bool)
    (parser : JSONMessageParser), Room parser (depthEntries entries) (entriesTokens first entries) →
    Held parser (entriesTokens first entries)
  | [], _, _, _ => held_comma (d := 0) true (by assumption)
  | (key, value) :: entries, first, parser, h => by
    rw [depthEntries, entriesTokens] at h
    rw [entriesTokens]
    have hcomma := balanced_comma first
    have hkey := hcomma.append (balanced_key key)
    have hvalue := hkey.append (balanced_tokensOf value)
    have hfirst := h.first (le_refl _)
    have hfront := hfirst.first (le_refl _)
    exact (((held_comma first (hfront.first (le_refl _))).append
      (held_key key (hfront.last hcomma (le_refl _)))).append
      (held_tokensOf value _ (hfirst.last hkey (le_max_left _ _)))).append
      (held_entriesTokens entries false _ (h.last hvalue (le_max_right _ _)))

lemma held_itemsTokens : ∀ (items : List QObject) (first : Bool) (parser : JSONMessageParser),
    Room parser (depthItems items) (itemsTokens first items) → Held parser (itemsTokens first items)
  | [], _, _, _ => held_comma (d := 0) true (by assumption)
  | value :: items, first, parser, h => by
    rw [depthItems, itemsTokens] at h
    rw [itemsTokens]
    have hcomma := balanced_comma first
    have hvalue := hcomma.append (balanced_tokensOf value)
    have hfirst := h.first (le_refl _)
    exact ((held_comma first (hfirst.first (le_refl _))).append
      (held_tokensOf value _ (hfirst.last hcomma (le_max_left _ _)))).append
      (held_itemsTokens items false _ (h.last hvalue (le_max_right _ _)))
end

lemma processToken_closes (htype : token.type ≠ .error)
    (hbrace : parser.braceCount + token.braces = 0)
    (hbracket : parser.bracketCount + token.brackets = 0) : jsonMessageProcessToken parser token =
      (⟨parser.lexer, 0, 0, [], 0⟩, [some (parser.tokens ++ [token])]) := by
  rw [jsonMessageProcessToken, if_neg htype, if_pos (.inr (.inr ⟨hbrace, hbracket⟩))]

lemma Pair.emitted (h : Pair l r) (hd : d + 1 ≤ maxNesting)
    (hsize : sizeSum ([l] ++ tokens ++ [r]) ≤ maxTokenSize) (hbalanced : Balanced tokens)
    (hheld : ∀ parser, Room parser d tokens → Held parser tokens) :
    (processTokens .init ([l] ++ tokens ++ [r])).2 = [some ([l] ++ tokens ++ [r])] := by
  obtain ⟨hleft, hright, hopens, hcloses⟩ := h
  rw [sizeSum_append, sizeSum_append] at hsize
  have hinner : Room (after .init [l]) d tokens := by
    constructor <;> simp only [after, JSONMessageParser.init] <;> omega
  have hopen : Held .init [l] := held_token hleft (hinner.first (a := []) (le_refl d))
  have hfront := hopen.append (hheld _ hinner)
  have hlast : jsonMessageProcessToken (after .init ([l] ++ tokens)) r =
      (⟨.init, 0, 0, [], 0⟩, [some ([l] ++ tokens ++ [r])]) := by
    refine processToken_closes hright ?_ ?_
    · simp only [after, braceSum_append, hbalanced.1, JSONMessageParser.init]
      simp only [braceSum_cons, braceSum_nil] at hcloses ⊢
      omega
    · simp only [after, bracketSum_append, hbalanced.2, JSONMessageParser.init]
      simp only [bracketSum_cons, bracketSum_nil] at hcloses ⊢
      omega
  rw [processTokens_append, hfront, processTokens, hlast]
  rfl

lemma processTokens_scalar (htype : type ≠ .operator ∧ type ≠ .error) (text : List Nat) :
    (processTokens .init [⟨type, text⟩]).2 = [some [⟨type, text⟩]] := by
  obtain ⟨hbrace, hbracket⟩ := counts_of_type_ne ⟨type, text⟩ htype.1
  rw [processTokens, processToken_closes htype.2 (by rw [hbrace]; rfl) (by rw [hbracket]; rfl)]
  rfl

lemma processTokens_tokensOf (v : QObject) (hdepth : depth v ≤ maxNesting)
    (hsize : sizeSum (tokensOf v) ≤ maxTokenSize) :
    (processTokens .init (tokensOf v)).2 = [some (tokensOf v)] := by
  cases v with
  | int value | string value | bool value | float text => exact processTokens_scalar (by decide) _
  | dict entries =>
    exact pair_braces.emitted hdepth hsize (balanced_entriesTokens true entries)
      (held_entriesTokens entries true)
  | list items =>
    exact pair_brackets.emitted hdepth hsize (balanced_itemsTokens true items)
      (held_itemsTokens items true)

mutual
lemma sizeSum_tokensOf (pretty : Bool) : ∀ (v : QObject) (indent : Nat),
    sizeSum (tokensOf v) ≤ (toJson pretty indent v).length
  | .int _, _ | .string _, _ | .bool true, _ | .bool false, _ | .float _, _ => le_refl _
  | .dict entries, indent => by
    have hentries := sizeSum_entriesTokens pretty entries true (indent + 1)
    rw [tokensOf, toJson, sizeSum_append, sizeSum_append]
    simp only [length_append]
    have hop : sizeSum [op '{'] = 1 ∧ sizeSum [op '}'] = 1 := by decide
    simp only [hop, length_singleton]
    omega
  | .list items, indent => by
    have hitems := sizeSum_itemsTokens pretty items true (indent + 1)
    rw [tokensOf, toJson, sizeSum_append, sizeSum_append]
    simp only [length_append]
    have hop : sizeSum [op '['] = 1 ∧ sizeSum [op ']'] = 1 := by decide
    simp only [hop, length_singleton]
    omega

lemma sizeSum_entriesTokens (pretty : Bool) : ∀ (entries : List (List Nat × QObject))
    (first : Bool) (indent : Nat),
    sizeSum (entriesTokens first entries) ≤ (toJsonEntries pretty indent first entries).length
  | [], _, _ => le_refl _
  | (key, value) :: entries, first, indent => by
    have hvalue := sizeSum_tokensOf pretty value indent
    have hentries := sizeSum_entriesTokens pretty entries false indent
    have hcomma : sizeSum (comma first) ≤ (separator first).length := by cases first <;> decide
    have hkey : sizeSum [⟨.string, stringText key⟩, op ':'] = (stringText key).length + 1 := rfl
    rw [entriesTokens, toJsonEntries]
    simp only [sizeSum_append, length_append, hkey, length_cons, length_nil]
    omega

lemma sizeSum_itemsTokens (pretty : Bool) : ∀ (items : List QObject) (first : Bool) (indent : Nat),
    sizeSum (itemsTokens first items) ≤ (toJsonItems pretty indent first items).length
  | [], _, _ => le_refl _
  | value :: items, first, indent => by
    have hvalue := sizeSum_tokensOf pretty value indent
    have hitems := sizeSum_itemsTokens pretty items false indent
    have hcomma : sizeSum (comma first) ≤ (separator first).length := by cases first <;> decide
    rw [itemsTokens, toJsonItems]
    simp only [sizeSum_append, length_append]
    omega
end

/-! ## Parser -/

def reread (s : List Nat) : List Nat :=
  match qstringFromEscapedStr (stringText s) with
  | .ok value => value
  | .error _ => []

mutual
def reparse : QObject → QObject
  | .int value => .int value
  | .string value => .string (reread value)
  | .bool value => .bool value
  | .float text => .float text
  | .dict entries => .dict (reparseEntries [] entries)
  | .list items => .list (reparseItems items)

def reparseEntries (dict : List (List Nat × QObject)) :
    List (List Nat × QObject) → List (List Nat × QObject)
  | [] => dict
  | (key, value) :: entries => reparseEntries (qdictPut (reread key) (reparse value) dict) entries

def reparseItems : List QObject → List QObject
  | [] => []
  | value :: items => reparse value :: reparseItems items
end

lemma reread_spec (hs : ModUtf8 s) : qstringFromEscapedStr (stringText s) = .ok (reread s) := by
  obtain ⟨cps, hvalid, rfl⟩ := hs
  rw [reread, unescape_stringText hvalid]

/-! ### Integers -/

lemma digitsValue_decimalLoop (n : Nat) : ∀ (value : Nat) (text : List Nat), value < n →
    digitsValue (decimalLoop n value text) 0 = digitsValue text value := by
  induction n with
  | zero =>
    intro value text hlt
    exact absurd hlt (Nat.not_lt_zero _)
  | succ n ih =>
    intro value text hlt
    have hdigit : Between '0' '9' ('0'.toNat + value % 10) := by
      constructor <;> simp only [Char.reduceToNat] <;> omega
    rw [decimalLoop]
    split
    · rw [digitsValue, if_pos hdigit, Nat.add_sub_cancel_left, Nat.mod_eq_of_lt (by omega)]
      simp
    · rw [ih (value / 10) _ (by omega), digitsValue, if_pos hdigit, Nat.add_sub_cancel_left,
        Nat.div_add_mod']

lemma strtoll_intText {value : Int}
    (h : -0x8000000000000000 ≤ value ∧ value ≤ 0x7fffffffffffffff) :
    strtoll (intText value) = some value := by
  have hdigits : digitsValue (decimalLoop (value.natAbs + 1) value.natAbs []) 0 = value.natAbs :=
    digitsValue_decimalLoop _ _ [] (Nat.lt_succ_self _)
  rw [intText]
  split
  next hneg =>
    have hvalue : -((digitsValue (decimalLoop (value.natAbs + 1) value.natAbs []) 0 : Nat) : Int) =
        value := by
      rw [hdigits]
      omega
    rw [strtoll, if_pos rfl, hvalue, if_pos h]
  next hneg =>
    -- the first digit is no minus
    obtain ⟨d, ds, hloop, hd⟩ : ∃ d ds,
        decimalLoop (value.natAbs + 1) value.natAbs [] = d :: ds ∧ d ≠ '-'.toNat := by
      by_cases hzero : value.natAbs = 0
      · rw [hzero]
        exact ⟨_, _, rfl, by decide⟩
      obtain ⟨d, ds, hloop, hd, _⟩ := decimalLoop_shape (value.natAbs + 1) value.natAbs []
        (Nat.lt_succ_self _) (by omega) (by simp)
      obtain ⟨hlo, hhi⟩ := between_cases hd
      exact ⟨d, ds, hloop, by simp only [Char.reduceToNat]; omega⟩
    have hvalue : ((digitsValue (d :: ds) 0 : Nat) : Int) = value := by
      rw [← hloop, hdigits]
      omega
    rw [hloop, strtoll, if_neg hd, hvalue, if_pos h]

/-! ### Rules -/

def ctx (tokens : List JSONToken) : Context := ⟨tokens, none, 0⟩

lemma parseValue_scalar (hn : 2 ≤ n) (htype : token.type ≠ .operator) :
    parseValue none n (ctx (token :: rest)) = parseScalar none (ctx (token :: rest)) := by
  obtain ⟨n, rfl⟩ : ∃ m, n = m + 2 := ⟨n - 2, by omega⟩
  have hop : ∀ c, token.isOperator c = false := by
    intro c
    simp [JSONToken.isOperator, htype]
  have hobject : parseObject none (n + 1) (ctx (token :: rest)) = .null (ctx (token :: rest)) := by
    rw [parseObject]
    simp [ctx, Context.pop, hop, Context.restore]
  have harray : parseArray none (n + 1) (ctx (token :: rest)) = .null (ctx (token :: rest)) := by
    rw [parseArray]
    simp [ctx, Context.pop, hop, Context.restore]
  rw [parseValue, hobject, Result.null_orElse, harray, Result.null_orElse]

lemma parseScalar_literal {v : QObject} (htype : token.type ≠ .keyword)
    (h : parseLiteral (ctx (token :: rest)) = .ok v (ctx rest)) :
    parseScalar none (ctx (token :: rest)) = .ok v (ctx rest) := by
  have hkeyword : parseKeyword (ctx (token :: rest)) = .null (ctx (token :: rest)) := by
    rw [parseKeyword]
    simp [ctx, Context.pop, htype, Context.restore]
  rw [parseScalar, parseEscape, Result.null_orElse, hkeyword, Result.null_orElse, h]

lemma parseValue_string (hn : 2 ≤ n) (hs : ModUtf8 s) (rest : List JSONToken) :
    parseValue none n (ctx (⟨.string, stringText s⟩ :: rest)) = .ok (.string (reread s)) (ctx rest) := by
  rw [parseValue_scalar hn (by exact fun h => by cases h)]
  refine parseScalar_literal (fun h => by cases h) ?_
  rw [parseLiteral]
  simp [ctx, Context.pop, reread_spec hs]

lemma parseValue_int (hn : 2 ≤ n) {value : Int}
    (hv : -0x8000000000000000 ≤ value ∧ value ≤ 0x7fffffffffffffff) (rest : List JSONToken) :
    parseValue none n (ctx (⟨.integer, intText value⟩ :: rest)) = .ok (.int value) (ctx rest) := by
  rw [parseValue_scalar hn (by exact fun h => by cases h)]
  refine parseScalar_literal (fun h => by cases h) ?_
  rw [parseLiteral]
  simp [ctx, Context.pop, strtoll_intText hv]

lemma parseValue_bool (hn : 2 ≤ n) (value : Bool) (rest : List JSONToken) :
    parseValue none n (ctx (⟨.keyword, if value then ascii "true" else ascii "false"⟩ :: rest)) =
      .ok (.bool value) (ctx rest) := by
  have hne : ascii "false" ≠ ascii "true" := by decide
  rw [parseValue_scalar hn (by exact fun h => by cases h), parseScalar, parseEscape,
    Result.null_orElse]
  cases value <;> simp [parseKeyword, ctx, Context.pop, hne]

lemma parsePair_tokens (hn : 3 ≤ n) (hkey : ModUtf8 key) (rest : List JSONToken) {value : QObject}
    (dict : List (List Nat × QObject))
    (hvalue : parseValue none (n - 1) (ctx (tokens ++ rest)) = .ok value (ctx rest)) :
    parsePair none n dict (ctx ([⟨.string, stringText key⟩, op ':'] ++ tokens ++ rest)) =
      .ok (qdictPut (reread key) value dict) (ctx rest) := by
  obtain ⟨n, rfl⟩ : ∃ m, n = m + 1 := ⟨n - 1, by omega⟩
  have hcolon : (op ':').isOperator ':' = true := by decide
  have hfirst := parseValue_string (n := n) (by omega) hkey (op ':' :: (tokens ++ rest))
  rw [Nat.add_sub_cancel] at hvalue
  rw [parsePair]
  simp only [cons_append, nil_append, ctx, Context.pop] at hfirst hvalue ⊢
  simp only [hfirst, hcolon, if_true, hvalue]

lemma tokensOf_cons (v : QObject) : ∃ token tail, tokensOf v = token :: tail ∧
    token.isOperator '}' = false ∧ token.isOperator ']' = false := by
  cases v with
  | int value | string value | bool value | float text =>
    exact ⟨_, _, rfl, by simp [JSONToken.isOperator], by simp [JSONToken.isOperator]⟩
  | dict entries => exact ⟨op '{', _, rfl, by decide, by decide⟩
  | list items => exact ⟨op '[', _, rfl, by decide, by decide⟩

variable {rest tail : List JSONToken} {dict entries : List (List Nat × QObject)}

lemma parseValue_dict
    (h : parseObject none n (ctx (op '{' :: tail)) = .ok (.dict dict) (ctx rest)) :
    parseValue none (n + 1) (ctx (op '{' :: tail)) = .ok (.dict dict) (ctx rest) := by
  rw [parseValue, h, Result.ok_orElse, Result.ok_orElse]

lemma parseValue_list {list : List QObject}
    (h : parseArray none (n + 1) (ctx (op '[' :: tail)) = .ok (.list list) (ctx rest)) :
    parseValue none (n + 2) (ctx (op '[' :: tail)) = .ok (.list list) (ctx rest) := by
  have hobject : parseObject none (n + 1) (ctx (op '[' :: tail)) = .null (ctx (op '[' :: tail)) := by
    have hop : (op '[').isOperator '{' = false := by decide
    rw [parseObject]
    simp [ctx, Context.pop, hop, Context.restore]
  rw [parseValue, hobject, Result.null_orElse, h, Result.ok_orElse]

mutual
lemma parseValue_tokensOf : ∀ (v : QObject) (n : Nat) (rest : List JSONToken), WellFormed v →
    3 * (tokensOf v).length ≤ n →
    parseValue none n (ctx (tokensOf v ++ rest)) = .ok (reparse v) (ctx rest)
  | .int _, _, rest, hv, hn => parseValue_int (Nat.le_of_succ_le hn) hv rest
  | .string _, _, rest, hv, hn => parseValue_string (Nat.le_of_succ_le hn) hv rest
  | .bool value, _, rest, _, hn => parseValue_bool (Nat.le_of_succ_le hn) value rest
  | .float _, _, _, hv, _ => hv.elim
  | .dict [], n, rest, _, hn => by
    obtain ⟨n, rfl⟩ : ∃ m, n = m + 2 := ⟨n - 2, by simp [tokensOf, entriesTokens] at hn; omega⟩
    refine parseValue_dict ?_
    rw [parseObject]
    rfl
  | .dict ((key, value) :: entries), n, rest, hv, hn => by
    simp only [tokensOf, entriesTokens, comma, if_true, length_append, length_cons,
      length_nil] at hn
    obtain ⟨hkey, hvalue, hentries⟩ := hv.2
    obtain ⟨n, rfl⟩ : ∃ m, n = m + 2 := ⟨n - 2, by omega⟩
    have hpair := parsePair_tokens (n := n) (by omega) hkey
      (entriesTokens false entries ++ (op '}' :: rest)) []
      (parseValue_tokensOf value (n - 1) _ hvalue (by omega))
    have hpairs := parsePairs_entries entries n (qdictPut (reread key) (reparse value) []) rest hentries
      (by omega)
    have hopen : (op '{').isOperator '{' = true := by decide
    have hpeek : (⟨.string, stringText key⟩ : JSONToken).isOperator '}' = false := by
      simp [JSONToken.isOperator]
    have htokens : tokensOf (.dict ((key, value) :: entries)) ++ rest =
        op '{' :: ([⟨.string, stringText key⟩, op ':'] ++ tokensOf value ++
          (entriesTokens false entries ++ (op '}' :: rest))) := by
      simp [tokensOf, entriesTokens, comma]
    rw [htokens]
    refine parseValue_dict ?_
    rw [parseObject]
    simp only [ctx, Context.pop, cons_append, nil_append] at hpair hpairs ⊢
    simp only [hopen, if_true, hpeek, Bool.false_eq_true, if_false, hpair, hpairs]
    rfl
  | .list [], n, rest, _, hn => by
    obtain ⟨n, rfl⟩ : ∃ m, n = m + 2 := ⟨n - 2, by simp [tokensOf, itemsTokens] at hn; omega⟩
    refine parseValue_list ?_
    rw [parseArray]
    rfl
  | .list (value :: items), n, rest, hv, hn => by
    simp only [tokensOf, itemsTokens, comma, if_true, length_append, length_cons, length_nil] at hn
    obtain ⟨hvalue, hitems⟩ := hv
    obtain ⟨n, rfl⟩ : ∃ m, n = m + 2 := ⟨n - 2, by omega⟩
    have hfirst := parseValue_tokensOf value n (itemsTokens false items ++ (op ']' :: rest)) hvalue
      (by omega)
    have hrest := parseValues_items items n [reparse value] rest hitems (by omega)
    have hopen : (op '[').isOperator '[' = true := by decide
    obtain ⟨token, tail, hcons, _, hpeek⟩ := tokensOf_cons value
    have htokens : tokensOf (.list (value :: items)) ++ rest =
        op '[' :: (tokensOf value ++ (itemsTokens false items ++ (op ']' :: rest))) := by
      simp [tokensOf, itemsTokens, comma]
    rw [htokens]
    refine parseValue_list ?_
    rw [parseArray]
    rw [hcons] at hfirst ⊢
    simp only [ctx, Context.pop, cons_append] at hfirst hrest ⊢
    simp only [hopen, if_true, hpeek, Bool.false_eq_true, if_false, hfirst, hrest]
    rfl

lemma parsePairs_entries : ∀ (entries : List (List Nat × QObject)) (n : Nat)
    (dict : List (List Nat × QObject)) (rest : List JSONToken), WellFormedEntries entries →
    3 * (entriesTokens false entries).length + 1 ≤ n →
    parsePairs none n dict (ctx (entriesTokens false entries ++ (op '}' :: rest))) =
      .ok (reparseEntries dict entries) (ctx rest)
  | [], n, dict, rest, _, hn => by
    obtain ⟨n, rfl⟩ : ∃ m, n = m + 1 := ⟨n - 1, by omega⟩
    rw [parsePairs]
    rfl
  | (key, value) :: entries, n, dict, rest, ⟨hkey, hvalue, hentries⟩, hn => by
    simp only [entriesTokens, comma, Bool.false_eq_true, if_false, length_append,
      length_cons, length_nil] at hn
    obtain ⟨n, rfl⟩ : ∃ m, n = m + 1 := ⟨n - 1, by omega⟩
    have hpair := parsePair_tokens (n := n) (by omega) hkey
      (entriesTokens false entries ++ (op '}' :: rest)) dict
      (parseValue_tokensOf value (n - 1) _ hvalue (by omega))
    have hpairs := parsePairs_entries entries n (qdictPut (reread key) (reparse value) dict) rest
      hentries (by omega)
    have hclose : (op ',').isOperator '}' = false := by decide
    have hcomma : (op ',').isOperator ',' = true := by decide
    have htokens : entriesTokens false ((key, value) :: entries) ++ (op '}' :: rest) =
        op ',' :: ([⟨.string, stringText key⟩, op ':'] ++ tokensOf value ++
          (entriesTokens false entries ++ (op '}' :: rest))) := by
      simp [entriesTokens, comma]
    rw [htokens, parsePairs]
    simp only [ctx, Context.pop] at hpair hpairs ⊢
    simp only [hclose, hcomma, Bool.false_eq_true, if_true, if_false, hpair, hpairs]
    rfl

lemma parseValues_items : ∀ (items : List QObject) (n : Nat) (list : List QObject)
    (rest : List JSONToken), WellFormedItems items → 3 * (itemsTokens false items).length + 1 ≤ n →
    parseValues none n list (ctx (itemsTokens false items ++ (op ']' :: rest))) =
      .ok (list ++ reparseItems items) (ctx rest)
  | [], n, list, rest, _, hn => by
    obtain ⟨n, rfl⟩ : ∃ m, n = m + 1 := ⟨n - 1, by omega⟩
    rw [parseValues, reparseItems, append_nil]
    rfl
  | value :: items, n, list, rest, ⟨hvalue, hitems⟩, hn => by
    simp only [itemsTokens, comma, Bool.false_eq_true, if_false, length_append,
      length_cons, length_nil] at hn
    obtain ⟨n, rfl⟩ : ∃ m, n = m + 1 := ⟨n - 1, by omega⟩
    have hfirst := parseValue_tokensOf value n (itemsTokens false items ++ (op ']' :: rest)) hvalue
      (by omega)
    have hrest := parseValues_items items n (list ++ [reparse value]) rest hitems (by omega)
    have hclose : (op ',').isOperator ']' = false := by decide
    have hcomma : (op ',').isOperator ',' = true := by decide
    have htokens : itemsTokens false (value :: items) ++ (op ']' :: rest) =
        op ',' :: (tokensOf value ++ (itemsTokens false items ++ (op ']' :: rest))) := by
      simp [itemsTokens, comma]
    rw [htokens, parseValues]
    simp only [ctx, Context.pop] at hfirst hrest ⊢
    simp only [hclose, hcomma, Bool.false_eq_true, if_true, if_false, hfirst, hrest]
    rw [reparseItems, append_assoc, singleton_append]
end

lemma qobjectFromJson_toJson (pretty : Bool) {v : QObject} (hv : WellFormed v)
    (hdepth : depth v ≤ maxNesting) (hlen : (qobjectToJson pretty v).length ≤ maxTokenSize) :
    qobjectFromJson (qobjectToJson pretty v) = .value (reparse v) none := by
  have hlex : lexAll .init (qobjectToJson pretty v) = tokensOf v := by
    have := lexAll_toJson pretty v 0 [] hv (fun ch hch => by cases hch) hlen
    rw [append_nil] at this
    exact this.trans (append_nil _)
  have hsize := (sizeSum_tokensOf pretty v 0).trans hlen
  have hemitted := feed_flush_eq (qobjectToJson pretty v) .init
  have hinit : JSONMessageParser.init.lexer = .init := rfl
  rw [hinit, hlex, processTokens_tokensOf v hdepth hsize] at hemitted
  have hparse := parseValue_tokensOf v (fuelFor (tokensOf v)) [] hv (by unfold fuelFor; omega)
  rw [append_nil] at hparse
  rw [qobjectFromJson]
  dsimp only
  have hlast : lastResult (.null none) [some (tokensOf v)] =
      jsonParserParseErr (some (tokensOf v)) none := by
    rw [lastResult, lastResult]
    exact fun h => by cases h
  rw [hemitted, hlast]
  obtain ⟨token, tail, htokens, _⟩ := tokensOf_cons v
  rw [htokens] at hparse ⊢
  rw [jsonParserParseErr_cons]
  unfold ctx at hparse
  rw [hparse]

/-! ## Equal trees -/

mutual
def Same : QObject → QObject → Prop
  | .int a, .int b => a = b
  | .string a, .string b => a = b
  | .bool a, .bool b => a = b
  | .float a, .float b => a = b
  | .dict entries, .dict entries' => entries.length = entries'.length ∧ SameEntries entries entries'
  | .list items, .list items' => SameItems items items'
  | _, _ => False

def SameEntries : List (List Nat × QObject) → List (List Nat × QObject) → Prop
  | [], _ => True
  | (key, value) :: entries, entries' =>
    (∃ value', (key, value') ∈ entries' ∧ Same value value') ∧ SameEntries entries entries'

def SameItems : List QObject → List QObject → Prop
  | [], [] => True
  | value :: items, value' :: items' => Same value value' ∧ SameItems items items'
  | _, _ => False
end

mutual
def PlainTree : QObject → Prop
  | .int _ => True
  | .string value => Plain value
  | .bool _ => True
  | .float _ => True
  | .dict entries => PlainEntries entries
  | .list items => PlainItems items

def PlainEntries : List (List Nat × QObject) → Prop
  | [] => True
  | (key, value) :: entries => Plain key ∧ PlainTree value ∧ PlainEntries entries

def PlainItems : List QObject → Prop
  | [] => True
  | value :: items => PlainTree value ∧ PlainItems items
end

lemma reread_eq_iff (hs : ModUtf8 s) : reread s = s ↔ Plain s := by
  obtain ⟨cps, hvalid, rfl⟩ := hs
  rw [reread, unescape_stringText hvalid]
  exact readBack_eq_iff hvalid

lemma plain_reread (hs : ModUtf8 s) : Plain (reread s) := by
  obtain ⟨cps, hvalid, rfl⟩ := hs
  rw [reread, unescape_stringText hvalid]
  exact plain_flatMap_readBack hvalid

lemma qdictPut_fresh (value : QObject) (dict : List (List Nat × QObject))
    (h : key ∉ dict.map Prod.fst) : qdictPut key value dict = dict ++ [(key, value)] := by
  induction dict with
  | nil => rfl
  | cons entry dict ih =>
    rw [map_cons, mem_cons, not_or] at h
    rw [qdictPut, if_neg (Ne.symm h.1), ih h.2, cons_append]

lemma mem_keys_qdictPut {key' : List Nat} {value : QObject}
    (h : key' ∈ (qdictPut key value dict).map Prod.fst) :
    key' = key ∨ key' ∈ dict.map Prod.fst := by
  induction dict with
  | nil =>
    rw [qdictPut, map_cons, map_nil, mem_singleton] at h
    exact .inl h
  | cons entry dict ih =>
    rw [qdictPut] at h
    split at h
    · rw [map_cons, mem_cons] at h
      rcases h with h | h
      · exact .inl h
      · exact .inr (mem_cons_of_mem _ h)
    rw [map_cons, mem_cons] at h
    rcases h with h | h
    · exact .inr (h ▸ mem_cons_self)
    · exact (ih h).imp_right (mem_cons_of_mem _)

lemma plain_keys_reparse (entries : List (List Nat × QObject)) :
    ∀ dict : List (List Nat × QObject), WellFormedEntries entries →
      (∀ key ∈ dict.map Prod.fst, Plain key) →
      ∀ key ∈ (reparseEntries dict entries).map Prod.fst, Plain key := by
  induction entries with
  | nil =>
    intro dict _ hdict
    exact hdict
  | cons entry entries ih =>
    obtain ⟨key, value⟩ := entry
    intro dict hwf hdict
    refine ih _ hwf.2.2 fun key' hkey' => ?_
    rcases mem_keys_qdictPut hkey' with rfl | hkey'
    · exact plain_reread hwf.1
    · exact hdict key' hkey'

lemma reparseEntries_plain (entries : List (List Nat × QObject)) :
    ∀ dict : List (List Nat × QObject), WellFormedEntries entries →
      (∀ entry ∈ entries, Plain entry.1) → ((dict ++ entries).map Prod.fst).Nodup →
      reparseEntries dict entries = dict ++ entries.map fun entry => (entry.1, reparse entry.2) := by
  induction entries with
  | nil =>
    intro dict _ _ _
    rw [reparseEntries, map_nil, append_nil]
  | cons entry entries ih =>
    obtain ⟨key, value⟩ := entry
    intro dict hwf hplain hnodup
    have hkey : reread key = key := (reread_eq_iff hwf.1).mpr (hplain _ mem_cons_self)
    have hfresh : key ∉ dict.map Prod.fst := by
      rw [map_append, map_cons] at hnodup
      intro hmem
      exact (nodup_append.mp hnodup).2.2 key hmem key mem_cons_self rfl
    rw [reparseEntries, hkey, qdictPut_fresh _ _ hfresh,
      ih _ hwf.2.2 (fun e he => hplain e (mem_cons_of_mem _ he)) (by simpa using hnodup)]
    simp

mutual
lemma Same.refl : ∀ v : QObject, Same v v
  | .int _ | .string _ | .bool _ | .float _ => rfl
  | .dict entries => ⟨rfl, SameEntries.of_subset entries entries fun _ h => h⟩
  | .list items => SameItems.refl items

lemma SameEntries.of_subset : ∀ entries entries' : List (List Nat × QObject),
    (∀ entry ∈ entries, entry ∈ entries') → SameEntries entries entries'
  | [], _, _ => trivial
  | (_, value) :: entries, entries', h =>
    ⟨⟨value, h _ mem_cons_self, Same.refl value⟩,
      SameEntries.of_subset entries entries' fun e he => h e (mem_cons_of_mem _ he)⟩

lemma SameItems.refl : ∀ items : List QObject, SameItems items items
  | [] => trivial
  | value :: items => ⟨Same.refl value, SameItems.refl items⟩
end

mutual
lemma reparse_of_plain : ∀ v : QObject, WellFormed v → PlainTree v → reparse v = v
  | .int _, _, _ => rfl
  | .string value, hv, hplain => congrArg QObject.string ((reread_eq_iff hv).mpr hplain)
  | .bool _, _, _ | .float _, _, _ => rfl
  | .dict entries, hv, hplain => by
    have hentries := reparse_entries_of_plain entries hv.2 hplain
    rw [reparse, reparseEntries_plain entries [] hv.2 (fun e he => (hentries e he).1) hv.1,
      nil_append]
    have hmap : (entries.map fun entry => (entry.1, reparse entry.2)) = entries.map id :=
      map_congr_left fun entry hentry => Prod.ext rfl (hentries entry hentry).2
    rw [hmap, map_id]
  | .list items, hv, hplain => congrArg QObject.list (reparse_items_of_plain items hv hplain)

lemma reparse_entries_of_plain : ∀ entries : List (List Nat × QObject), WellFormedEntries entries →
    PlainEntries entries → ∀ entry ∈ entries, Plain entry.1 ∧ reparse entry.2 = entry.2
  | [], _, _, _, h => absurd h not_mem_nil
  | (key, value) :: entries, hwf, hplain, entry, h => by
    have hvalue := reparse_of_plain value hwf.2.1 hplain.2.1
    have hentries := reparse_entries_of_plain entries hwf.2.2 hplain.2.2
    rcases mem_cons.mp h with rfl | h
    · exact ⟨hplain.1, hvalue⟩
    · exact hentries entry h

lemma reparse_items_of_plain : ∀ items : List QObject, WellFormedItems items → PlainItems items →
    reparseItems items = items
  | [], _, _ => rfl
  | value :: items, hwf, hplain => by
    rw [reparseItems, reparse_of_plain value hwf.1 hplain.1,
      reparse_items_of_plain items hwf.2 hplain.2]
end

lemma SameEntries.mem {entries' : List (List Nat × QObject)}
    (h : SameEntries entries entries') : ∀ entry ∈ entries, ∃ value', (entry.1, value') ∈ entries' ∧
      Same entry.2 value' := by
  induction entries with
  | nil =>
    intro entry hentry
    cases hentry
  | cons head entries ih =>
    obtain ⟨key, value⟩ := head
    intro entry hentry
    rcases mem_cons.mp hentry with rfl | hentry
    · exact h.1
    · exact ih h.2 entry hentry

lemma SameEntries.reparse (hwf : WellFormedEntries entries)
    (hnodup : (entries.map Prod.fst).Nodup) (h : SameEntries entries (reparseEntries [] entries)) :
    ∀ entry ∈ entries, Plain entry.1 ∧ Same entry.2 (reparse entry.2) := by
  have hkeys := plain_keys_reparse entries [] hwf (by simp)
  have hplain : ∀ entry ∈ entries, Plain entry.1 := by
    intro entry hentry
    obtain ⟨value', hmem, _⟩ := h.mem entry hentry
    exact hkeys entry.1 (mem_map.mpr ⟨_, hmem, rfl⟩)
  intro entry hentry
  refine ⟨hplain entry hentry, ?_⟩
  obtain ⟨value', hmem, hsame⟩ := h.mem entry hentry
  rw [reparseEntries_plain entries [] hwf hplain hnodup, nil_append] at hmem
  obtain ⟨entry', hentry', heq⟩ := mem_map.mp hmem
  obtain ⟨hkey, hvalue⟩ := Prod.mk.inj heq
  -- there is one entry with this key
  have hunique : entry' = entry := inj_on_of_nodup_map hnodup hentry' hentry hkey
  rwa [← hvalue, hunique] at hsame

mutual
lemma plain_of_same : ∀ v : QObject, WellFormed v → Same v (reparse v) → PlainTree v
  | .int _, _, _ => trivial
  | .string _, hv, h => (reread_eq_iff hv).mp (Eq.symm h)
  | .bool _, _, _ | .float _, _, _ => trivial
  | .dict entries, hv, h => plain_of_same_entries entries hv.2 (SameEntries.reparse hv.2 hv.1 h.2)
  | .list items, hv, h => plain_of_same_items items hv h

lemma plain_of_same_entries : ∀ entries : List (List Nat × QObject), WellFormedEntries entries →
    (∀ entry ∈ entries, Plain entry.1 ∧ Same entry.2 (reparse entry.2)) → PlainEntries entries
  | [], _, _ => trivial
  | (_, value) :: entries, hwf, h =>
    ⟨(h _ mem_cons_self).1, plain_of_same value hwf.2.1 (h _ mem_cons_self).2,
      plain_of_same_entries entries hwf.2.2 fun e he => h e (mem_cons_of_mem _ he)⟩

lemma plain_of_same_items : ∀ items : List QObject, WellFormedItems items →
    SameItems items (reparseItems items) → PlainItems items
  | [], _, _ => trivial
  | value :: items, hwf, h => ⟨plain_of_same value hwf.1 h.1, plain_of_same_items items hwf.2 h.2⟩
end

/-- A printed tree is read back as an equal tree exactly when no string and no key has U+0000 or a
character beyond the basic plane. -/
theorem round_trip_iff (pretty : Bool) (v : QObject) (hv : WellFormed v)
    (hdepth : depth v ≤ 1024) (hlen : (qobjectToJson pretty v).length ≤ maxTokenSize) :
    (∃ w, qobjectFromJson (qobjectToJson pretty v) = .value w none ∧ Same v w) ↔ PlainTree v := by
  have hread := qobjectFromJson_toJson pretty hv (by unfold maxNesting; omega) hlen
  constructor
  · rintro ⟨w, hw, hsame⟩
    rw [hread] at hw
    cases hw
    exact plain_of_same v hv hsame
  intro hplain
  refine ⟨reparse v, hread, ?_⟩
  rw [reparse_of_plain v hv hplain]
  exact Same.refl v

def sampleTree : QObject :=
  .dict [(ascii "key", .list [.int (-12), .int 0, .bool true, .string [0x22, 0x0a, 0xC3, 0xA9]]),
    ([], .dict [])]

lemma wellFormed_sampleTree : WellFormed sampleTree := by
  have hkey : ModUtf8 (ascii "key") := ⟨ascii "key", by decide, by decide⟩
  have hstring : ModUtf8 [0x22, 0x0a, 0xC3, 0xA9] := ⟨[0x22, 0x0a, 0xE9], by decide, by decide⟩
  have hempty : ModUtf8 [] := ⟨[], by decide, rfl⟩
  exact ⟨by decide, hkey, ⟨⟨by decide, by decide⟩, ⟨by decide, by decide⟩, trivial, hstring, trivial⟩,
    hempty, ⟨by decide, trivial⟩, trivial⟩

theorem round_trip_sample :
    ∃ w, qobjectFromJson (qobjectToJson true sampleTree) = .value w none ∧ Same sampleTree w :=
  have hstring : Plain [0x22, 0x0a, 0xC3, 0xA9] := by decide
  (round_trip_iff true sampleTree wellFormed_sampleTree (by decide) (by decide +kernel)).mpr
    ⟨by decide, ⟨trivial, trivial, trivial, hstring, trivial⟩, by decide, trivial, trivial⟩

/-- The character U+1F600 is read back as two surrogates of three octets each, and U+0000 as
nothing. -/
theorem round_trip_changes_strings : ModUtf8 [0xF0, 0x9F, 0x98, 0x80] ∧ ModUtf8 [0xC0, 0x80] ∧
      qobjectFromJson (qobjectToJson false (.string [0xF0, 0x9F, 0x98, 0x80])) =
        .value (.string [0xED, 0xA0, 0xBD, 0xED, 0xB8, 0x80]) none ∧
      qobjectFromJson (qobjectToJson false (.string [0xC0, 0x80])) = .value (.string []) none := by
  have hemoji : ModUtf8 [0xF0, 0x9F, 0x98, 0x80] := ⟨[0x1F600], by decide, by decide⟩
  have hnull : ModUtf8 [0xC0, 0x80] := ⟨[0], by decide, by decide⟩
  refine ⟨hemoji, hnull, ?_, ?_⟩
  · exact qobjectFromJson_toJson false (v := .string _) hemoji (by decide) (by decide +kernel)
  · exact qobjectFromJson_toJson false (v := .string _) hnull (by decide) (by decide +kernel)

end QemuVmi.Qobject
