import QemuVmi.Qobject.JsonParser

/-!
# The parser on what the streamer emits

The streamer hands a list over when the braces and brackets it has counted are closed, or one is
closed that was not open, or when a limit is exceeded. The parser runs out of tokens only in a list
that leaves a brace or bracket open: then both counts are not negative and one is positive. So it
never does in a list of the first kind, whatever its tokens are. In a list that is cut off at a limit
it can.

Results:
1. `specs`: the counts of the tokens that each function of the parser takes, and of those it runs out
   of.
2. `StreamInv.processToken`: what the streamer emits.
3. `parser_handles_emitted`: the parser does not abort on it.
-/

namespace QemuVmi.Qobject

open List

section
variable (tokens : List JSONToken)

def braceSum : Int := (tokens.map JSONToken.braces).sum

def bracketSum : Int := (tokens.map JSONToken.brackets).sum

def sizeSum : Nat := (tokens.map fun token => token.text.length).sum

def Closed : Prop :=
  braceSum tokens < 0 ∨ bracketSum tokens < 0 ∨ (braceSum tokens = 0 ∧ bracketSum tokens = 0)

def WithinLimits : Prop :=
  sizeSum tokens ≤ maxTokenSize ∧ bracketSum tokens ≤ maxNesting ∧ braceSum tokens ≤ maxNesting

instance (tokens : List JSONToken) : Decidable (WithinLimits tokens) :=
  inferInstanceAs (Decidable (_ ∧ _))

def NonNeg : Prop := 0 ≤ braceSum tokens ∧ 0 ≤ bracketSum tokens

def Open : Prop :=
  NonNeg tokens ∧ (tokens = [] ∨ 0 < braceSum tokens + bracketSum tokens)
end

@[simp] lemma braceSum_nil : braceSum [] = 0 := rfl

@[simp] lemma bracketSum_nil : bracketSum [] = 0 := rfl

@[simp] lemma braceSum_cons (token : JSONToken) (tokens : List JSONToken) :
    braceSum (token :: tokens) = token.braces + braceSum tokens := by
  simp [braceSum]

@[simp] lemma bracketSum_cons (token : JSONToken) (tokens : List JSONToken) :
    bracketSum (token :: tokens) = token.brackets + bracketSum tokens := by
  simp [bracketSum]

@[simp] lemma braceSum_append (l l' : List JSONToken) :
    braceSum (l ++ l') = braceSum l + braceSum l' := by
  simp [braceSum]

@[simp] lemma bracketSum_append (l l' : List JSONToken) :
    bracketSum (l ++ l') = bracketSum l + bracketSum l' := by
  simp [bracketSum]

variable {tokens : List JSONToken} {token : JSONToken} {op : Char} {a b ctxt next : Context}
  {x y : Int} {ap : VaList} {n : Nat} {parser : JSONMessageParser}

lemma not_open_of_closed (hne : tokens ≠ []) (hclosed : Closed tokens) : ¬ Open tokens := by
  rintro ⟨⟨hbrace, hbracket⟩, hnil | hpos⟩
  · exact hne hnil
  · rcases hclosed with h | h | ⟨h, h'⟩ <;> omega

lemma isOperator_iff :
    token.isOperator op = true ↔ token.type = .operator ∧ token.text = [op.toNat] := by
  simp [JSONToken.isOperator]

lemma counts_of_isOperator (h : token.isOperator op = true) :
    token.braces = (if op.toNat = '{'.toNat then 1 else if op.toNat = '}'.toNat then -1 else 0) ∧
      token.brackets =
        (if op.toNat = '['.toNat then 1 else if op.toNat = ']'.toNat then -1 else 0) := by
  obtain ⟨htype, htext⟩ := isOperator_iff.mp h
  constructor
  · simp only [JSONToken.braces, htype, htext, if_true, head?_cons, Option.some.injEq]
  · simp only [JSONToken.brackets, htype, htext, if_true, head?_cons, Option.some.injEq]

lemma counts_of_type_ne (token : JSONToken) (h : token.type ≠ .operator) :
    token.braces = 0 ∧ token.brackets = 0 := by
  simp [JSONToken.braces, JSONToken.brackets, h]

/-- `ctxt'` is what is left of `ctxt` after tokens with the given counts. -/
def Uses (ctxt ctxt' : Context) (braces brackets : Int) : Prop :=
  ∃ used, used ≠ [] ∧ ctxt.tokens = used ++ ctxt'.tokens ∧ braceSum used = braces ∧
    bracketSum used = brackets

/-- What a function does: it takes tokens with the given counts, returns a null pointer with the
tokens as `restored` says, or runs out of tokens that are as `out` says. -/
def Spec {α : Type} (ctxt : Context) (braces brackets : Int) (restored : Prop → Prop)
    (out : List JSONToken → Prop) : Result α → Prop
  | .ok _ ctxt' => Uses ctxt ctxt' braces brackets
  | .null ctxt' => restored (ctxt'.tokens = ctxt.tokens)
  | .abort => out ctxt.tokens

abbrev RuleSpec {α : Type} (ctxt : Context) (r : Result α) : Prop := Spec ctxt 0 0 id Open r

abbrev ValueSpec {α : Type} (ctxt : Context) (r : Result α) : Prop :=
  Spec ctxt 0 0 (fun _ => True) Open r

abbrev PartSpec {α : Type} (ctxt : Context) (braces brackets : Int) (r : Result α) : Prop :=
  Spec ctxt braces brackets (fun _ => True) NonNeg r

lemma Uses.trans {c : Context} {x' y' : Int} (h : Uses a b x y) (h' : Uses b c x' y') :
    Uses a c (x + x') (y + y') := by
  obtain ⟨used, hne, htokens, hx, hy⟩ := h
  obtain ⟨used', -, htokens', hx', hy'⟩ := h'
  refine ⟨used ++ used', by simp [hne], by rw [htokens, htokens', append_assoc], ?_, ?_⟩
  · rw [braceSum_append, hx, hx']
  · rw [bracketSum_append, hy, hy']

lemma Uses.nonNeg (h : Uses a b x y) (hx : 0 ≤ x) (hy : 0 ≤ y) (hb : NonNeg b.tokens) :
    NonNeg a.tokens := by
  obtain ⟨used, -, htokens, hx', hy'⟩ := h
  obtain ⟨hbrace, hbracket⟩ := hb
  rw [htokens]
  constructor
  · rw [braceSum_append]
    omega
  · rw [bracketSum_append]
    omega

lemma Uses.open (h : Uses a b x y) (hx : 0 ≤ x) (hy : 0 ≤ y) (hpos : 0 < x + y)
    (hb : NonNeg b.tokens) : Open a.tokens := by
  refine ⟨h.nonNeg hx hy hb, Or.inr ?_⟩
  obtain ⟨used, -, htokens, hx', hy'⟩ := h
  obtain ⟨hbrace, hbracket⟩ := hb
  rw [htokens, braceSum_append, bracketSum_append]
  omega

lemma Uses.length (h : Uses a b x y) : b.tokens.length < a.tokens.length := by
  obtain ⟨used, hne, htokens, -, -⟩ := h
  have hpos := List.length_pos_iff.mpr hne
  rw [htokens, length_append]
  omega

lemma pop_eq_none (h : ctxt.pop = none) : ctxt.tokens = [] := by
  unfold Context.pop at h
  split at h
  · assumption
  · cases h

section
variable (h : ctxt.pop = some (token, next))
include h

lemma pop_eq_some : ctxt.tokens = token :: next.tokens := by
  unfold Context.pop at h
  split at h
  · cases h
  next htokens =>
    cases h
    exact htokens

lemma uses_pop : Uses ctxt next token.braces token.brackets :=
  ⟨[token], by simp, pop_eq_some h, by simp, by simp⟩

lemma uses_of_type_ne (htype : token.type ≠ .operator) : Uses ctxt next 0 0 := by
  obtain ⟨hbraces, hbrackets⟩ := counts_of_type_ne token htype
  have huses := uses_pop h
  rwa [hbraces, hbrackets] at huses

lemma uses_operator (hop : token.isOperator op = true) :
    Uses ctxt next (if op.toNat = '{'.toNat then 1 else if op.toNat = '}'.toNat then -1 else 0)
      (if op.toNat = '['.toNat then 1 else if op.toNat = ']'.toNat then -1 else 0) := by
  obtain ⟨hbraces, hbrackets⟩ := counts_of_isOperator hop
  have huses := uses_pop h
  rwa [hbraces, hbrackets] at huses
end

lemma nonNeg_nil (h : tokens = []) : NonNeg tokens := by
  rw [h]
  exact ⟨le_refl _, le_refl _⟩

lemma open_nil (h : tokens = []) : Open tokens :=
  ⟨nonNeg_nil h, Or.inl h⟩

variable {α : Type} {r : Result α}

lemma Uses.partSpec (h : Uses a b 0 0) (hr : PartSpec b x y r) : PartSpec a x y r := by
  cases r with
  | ok _ c =>
    have huses := h.trans hr
    rwa [zero_add, zero_add] at huses
  | null c => trivial
  | abort => exact h.nonNeg (le_refl _) (le_refl _) hr

lemma ValueSpec.part (h : ValueSpec ctxt r) : PartSpec ctxt 0 0 r := by
  cases r with
  | ok _ _ => exact h
  | null _ => trivial
  | abort => exact h.1

lemma Open.congr (htokens : b.tokens = a.tokens) (h : Open b.tokens) : Open a.tokens := htokens ▸ h

lemma Uses.congr {c : Context} (htokens : b.tokens = a.tokens) (h : Uses b c x y) :
    Uses a c x y := by
  obtain ⟨used, hne, hb, hx, hy⟩ := h
  exact ⟨used, hne, by rw [← htokens, hb], hx, hy⟩

lemma parseKeyword_spec (ctxt : Context) : RuleSpec ctxt (parseKeyword ctxt) := by
  unfold parseKeyword
  cases hpop : ctxt.pop with
  | none => exact open_nil (pop_eq_none hpop)
  | some next =>
    obtain ⟨token, next⟩ := next
    dsimp only
    by_cases htype : token.type ≠ .keyword
    · rw [if_pos htype]
      rfl
    have huses := uses_of_type_ne hpop (by rw [not_not.mp htype]; nofun)
    rw [if_neg htype]
    split
    · exact huses
    · split
      · exact huses
      · rfl

lemma parseEscape_spec (ap : VaList) (ctxt : Context) : RuleSpec ctxt (parseEscape ap ctxt) := by
  unfold parseEscape
  cases ap with
  | none => rfl
  | some arg =>
    cases hpop : ctxt.pop with
    | none => exact open_nil (pop_eq_none hpop)
    | some next =>
      obtain ⟨token, next⟩ := next
      dsimp only
      split
      next hknown =>
        have huses := uses_of_type_ne hpop (by rw [hknown.1]; nofun)
        exact huses
      · rfl

lemma parseLiteral_spec (ctxt : Context) : ValueSpec ctxt (parseLiteral ctxt) := by
  unfold parseLiteral
  cases hpop : ctxt.pop with
  | none => exact open_nil (pop_eq_none hpop)
  | some next =>
    obtain ⟨token, next⟩ := next
    have huses := uses_of_type_ne hpop
    dsimp only
    split
    next htype =>
      split
      · exact huses (by rw [htype]; nofun)
      · trivial
    next htype =>
      split
      · exact huses (by rw [htype]; nofun)
      · exact huses (by rw [htype]; nofun)
    next htype => exact huses (by rw [htype]; nofun)
    · trivial

lemma Spec.orElse {next : Context → Result α} {restored : Prop → Prop} (hr : RuleSpec ctxt r)
    (hnext : ∀ ctxt', ctxt'.tokens = ctxt.tokens → Spec ctxt' 0 0 restored Open (next ctxt')) :
    Spec ctxt 0 0 restored Open (r.orElse next) := by
  cases r with
  | abort | ok obj ctxt' => exact hr
  | null ctxt' =>
    have htokens : ctxt'.tokens = ctxt.tokens := hr
    have hspec := hnext ctxt' htokens
    rw [Result.null_orElse]
    generalize next ctxt' = r at hspec ⊢
    cases r with
    | abort => exact Open.congr htokens hspec
    | ok obj ctxt'' => exact Uses.congr htokens hspec
    | null ctxt'' =>
      unfold Spec at hspec ⊢
      rwa [htokens] at hspec

lemma parseScalar_spec (ap : VaList) (ctxt : Context) : ValueSpec ctxt (parseScalar ap ctxt) :=
  Spec.orElse (Spec.orElse (parseEscape_spec ap ctxt) fun ctxt' _ => parseKeyword_spec ctxt')
    fun ctxt' _ => parseLiteral_spec ctxt'

/-- What holds of the functions when they may be nested `n` times. -/
structure Specs (ap : VaList) (n : Nat) : Prop where
  value : ∀ ctxt, 3 * ctxt.tokens.length + 3 ≤ n → ValueSpec ctxt (parseValue ap n ctxt)
  pair : ∀ dict ctxt, 3 * ctxt.tokens.length + 4 ≤ n → PartSpec ctxt 0 0 (parsePair ap n dict ctxt)
  pairs : ∀ dict ctxt, 3 * ctxt.tokens.length + 2 ≤ n →
    PartSpec ctxt (-1) 0 (parsePairs ap n dict ctxt)
  object : ∀ ctxt, 3 * ctxt.tokens.length + 2 ≤ n → RuleSpec ctxt (parseObject ap n ctxt)
  values : ∀ list ctxt, 3 * ctxt.tokens.length + 1 ≤ n →
    PartSpec ctxt 0 (-1) (parseValues ap n list ctxt)
  array : ∀ ctxt, 3 * ctxt.tokens.length + 2 ≤ n → RuleSpec ctxt (parseArray ap n ctxt)

section
variable (h : Specs ap n)
include h

lemma parseValue_spec (ctxt : Context) (hn : 3 * ctxt.tokens.length + 3 ≤ n + 1) :
    ValueSpec ctxt (parseValue ap (n + 1) ctxt) := by
  rw [parseValue]
  refine Spec.orElse (Spec.orElse (h.object ctxt (by omega)) fun ctxt' htokens => ?_)
    fun ctxt' _ => parseScalar_spec ap ctxt'
  exact h.array ctxt' (by rw [htokens]; omega)

lemma parsePair_spec (dict : List (List Nat × QObject)) (ctxt : Context)
    (hn : 3 * ctxt.tokens.length + 4 ≤ n + 1) :
    PartSpec ctxt 0 0 (parsePair ap (n + 1) dict ctxt) := by
  rw [parsePair]
  cases hpop : ctxt.pop with
  | none => exact nonNeg_nil (pop_eq_none hpop)
  | some _ =>
    have hkey := h.value ctxt (by omega)
    dsimp only
    split
    next hr =>
      rw [hr] at hkey
      exact hkey.1
    next key ctxt₁ hr =>
      rw [hr] at hkey
      cases hpop₁ : ctxt₁.pop with
      | none => exact Uses.nonNeg hkey (le_refl _) (le_refl _) (nonNeg_nil (pop_eq_none hpop₁))
      | some next =>
        obtain ⟨token, ctxt₂⟩ := next
        dsimp only
        split
        next hcolon =>
          have huses : Uses ctxt ctxt₂ 0 0 := Uses.trans hkey (uses_operator hpop₁ hcolon)
          have hlength₂ := Uses.length huses
          have hvalue := huses.partSpec (h.value ctxt₂ (by omega)).part
          generalize parseValue ap n ctxt₂ = r at hvalue ⊢
          cases r with
          | abort | ok value ctxt₃ => exact hvalue
          | null ctxt₃ => trivial
        · trivial
    · trivial
    · trivial

lemma parsePairs_spec (dict : List (List Nat × QObject)) (ctxt : Context)
    (hn : 3 * ctxt.tokens.length + 2 ≤ n + 1) :
    PartSpec ctxt (-1) 0 (parsePairs ap (n + 1) dict ctxt) := by
  rw [parsePairs]
  cases hpop : ctxt.pop with
  | none => exact nonNeg_nil (pop_eq_none hpop)
  | some next =>
    obtain ⟨token, ctxt₁⟩ := next
    dsimp only
    split
    next hclose => exact uses_operator hpop hclose
    split
    next hcomma =>
      have huses : Uses ctxt ctxt₁ 0 0 := uses_operator hpop hcomma
      have hlength := Uses.length huses
      have hpair := huses.partSpec (h.pair dict ctxt₁ (by omega))
      generalize parsePair ap n dict ctxt₁ = r at hpair ⊢
      cases r with
      | abort => exact hpair
      | null ctxt₂ => trivial
      | ok dict₂ ctxt₂ =>
        have hlength₂ := Uses.length hpair
        exact Uses.partSpec hpair (h.pairs dict₂ ctxt₂ (by omega))
    · trivial

lemma parseObject_spec (ctxt : Context) (hn : 3 * ctxt.tokens.length + 2 ≤ n + 1) :
    RuleSpec ctxt (parseObject ap (n + 1) ctxt) := by
  rw [parseObject]
  cases hpop : ctxt.pop with
  | none => exact open_nil (pop_eq_none hpop)
  | some next =>
    obtain ⟨token, ctxt₁⟩ := next
    dsimp only
    split
    next hbrace =>
      have huses : Uses ctxt ctxt₁ 1 0 := uses_operator hpop hbrace
      have hlength := Uses.length huses
      have hopen : NonNeg ctxt₁.tokens → Open ctxt.tokens :=
        huses.open (by decide) (by decide) (by decide)
      cases hpop₁ : ctxt₁.pop with
      | none => exact hopen (nonNeg_nil (pop_eq_none hpop₁))
      | some next =>
        obtain ⟨peek, ctxt₂⟩ := next
        dsimp only
        split
        next hclose => exact huses.trans (uses_operator hpop₁ hclose)
        have hpair := h.pair [] ctxt₁ (by omega)
        generalize parsePair ap n [] ctxt₁ = r at hpair ⊢
        cases r with
        | abort => exact hopen hpair
        | null ctxt₃ => rfl
        | ok dict ctxt₃ =>
          have hlength₃ := Uses.length hpair
          have hpairs := Uses.partSpec hpair (h.pairs dict ctxt₃ (by omega))
          dsimp only
          generalize parsePairs ap n dict ctxt₃ = r at hpairs ⊢
          cases r with
          | abort => exact hopen hpairs
          | null ctxt₄ => rfl
          | ok dict₄ ctxt₄ => exact huses.trans hpairs
    · rfl

lemma parseValues_spec (list : List QObject) (ctxt : Context)
    (hn : 3 * ctxt.tokens.length + 1 ≤ n + 1) :
    PartSpec ctxt 0 (-1) (parseValues ap (n + 1) list ctxt) := by
  rw [parseValues]
  cases hpop : ctxt.pop with
  | none => exact nonNeg_nil (pop_eq_none hpop)
  | some next =>
    obtain ⟨token, ctxt₁⟩ := next
    dsimp only
    split
    next hclose => exact uses_operator hpop hclose
    split
    next hcomma =>
      have huses : Uses ctxt ctxt₁ 0 0 := uses_operator hpop hcomma
      have hlength := Uses.length huses
      have hvalue := huses.partSpec (h.value ctxt₁ (by omega)).part
      generalize parseValue ap n ctxt₁ = r at hvalue ⊢
      cases r with
      | abort => exact hvalue
      | null ctxt₂ => trivial
      | ok obj ctxt₂ =>
        have hlength₂ := Uses.length hvalue
        exact Uses.partSpec hvalue (h.values (list ++ [obj]) ctxt₂ (by omega))
    · trivial

lemma parseArray_spec (ctxt : Context) (hn : 3 * ctxt.tokens.length + 2 ≤ n + 1) :
    RuleSpec ctxt (parseArray ap (n + 1) ctxt) := by
  rw [parseArray]
  cases hpop : ctxt.pop with
  | none => exact open_nil (pop_eq_none hpop)
  | some next =>
    obtain ⟨token, ctxt₁⟩ := next
    dsimp only
    split
    next hbracket =>
      have huses : Uses ctxt ctxt₁ 0 1 := uses_operator hpop hbracket
      have hlength := Uses.length huses
      have hopen : NonNeg ctxt₁.tokens → Open ctxt.tokens :=
        huses.open (by decide) (by decide) (by decide)
      cases hpop₁ : ctxt₁.pop with
      | none => exact hopen (nonNeg_nil (pop_eq_none hpop₁))
      | some next =>
        obtain ⟨peek, ctxt₂⟩ := next
        dsimp only
        split
        next hclose => exact huses.trans (uses_operator hpop₁ hclose)
        have hvalue := (h.value ctxt₁ (by omega)).part
        generalize parseValue ap n ctxt₁ = r at hvalue ⊢
        cases r with
        | abort => exact hopen hvalue
        | null ctxt₃ => rfl
        | ok obj ctxt₃ =>
          have hlength₃ := Uses.length hvalue
          have hvalues := Uses.partSpec hvalue (h.values [obj] ctxt₃ (by omega))
          dsimp only
          generalize parseValues ap n [obj] ctxt₃ = r at hvalues ⊢
          cases r with
          | abort => exact hopen hvalues
          | null ctxt₄ => rfl
          | ok list₄ ctxt₄ => exact huses.trans hvalues
    · rfl
end

lemma specs (ap : VaList) (n : Nat) : Specs ap n := by
  induction n with
  | zero =>
    exact ⟨fun _ h => by omega, fun _ _ h => by omega, fun _ _ h => by omega, fun _ h => by omega,
      fun _ _ h => by omega, fun _ h => by omega⟩
  | succ n ih =>
    exact ⟨parseValue_spec ih, parsePair_spec ih, parsePairs_spec ih, parseObject_spec ih,
      parseValues_spec ih, parseArray_spec ih⟩

lemma jsonParserParseErr_cons (token : JSONToken) (tokens : List JSONToken) (ap : VaList) :
    jsonParserParseErr (some (token :: tokens)) ap =
      match parseValue ap (fuelFor (token :: tokens)) ⟨token :: tokens, none, 0⟩ with
      | .ok obj ctxt => .value obj ctxt.err
      | .null ctxt => .null ctxt.err
      | .abort => .abort := rfl

lemma jsonParserParseErr_of_not_open (ap : VaList) (h : ¬ Open tokens) :
    jsonParserParseErr (some tokens) ap ≠ .abort := by
  cases tokens with
  | nil => nofun
  | cons token tokens =>
    have hspec := (specs ap (fuelFor (token :: tokens))).value ⟨token :: tokens, none, 0⟩
      (le_refl _)
    rw [jsonParserParseErr_cons]
    cases hr : parseValue ap (fuelFor (token :: tokens)) ⟨token :: tokens, none, 0⟩ with
    | ok obj ctxt | null ctxt => nofun
    | abort =>
      rw [hr] at hspec
      exact absurd hspec h

structure StreamInv (parser : JSONMessageParser) : Prop where
  braces : parser.braceCount = braceSum parser.tokens
  brackets : parser.bracketCount = bracketSum parser.tokens
  size : parser.tokenSize = sizeSum parser.tokens

def Emits (emitted : List (Option (List JSONToken))) : Prop :=
  ∀ tokens, some tokens ∈ emitted → tokens ≠ [] ∧ (Closed tokens ∨ ¬ WithinLimits tokens)

lemma Emits.append {l l' : List (Option (List JSONToken))} (h : Emits l) (h' : Emits l') :
    Emits (l ++ l') := by
  intro tokens hmem
  rcases List.mem_append.mp hmem with hmem | hmem
  · exact h tokens hmem
  · exact h' tokens hmem

lemma StreamInv.init : StreamInv .init := ⟨rfl, rfl, rfl⟩

lemma StreamInv.processToken (h : StreamInv parser) (token : JSONToken) :
    StreamInv (jsonMessageProcessToken parser token).1 ∧
      Emits (jsonMessageProcessToken parser token).2 := by
  have hbraces : parser.braceCount + token.braces = braceSum (parser.tokens ++ [token]) := by
    rw [h.braces, braceSum_append]
    simp
  have hbrackets : parser.bracketCount + token.brackets =
      bracketSum (parser.tokens ++ [token]) := by
    rw [h.brackets, bracketSum_append]
    simp
  have hsize : parser.tokenSize + token.text.length = sizeSum (parser.tokens ++ [token]) := by
    rw [h.size]
    simp [sizeSum]
  have hreset : StreamInv ⟨parser.lexer, 0, 0, [], 0⟩ := ⟨rfl, rfl, rfl⟩
  unfold jsonMessageProcessToken
  dsimp only
  rw [hbraces, hbrackets, hsize]
  split
  · exact ⟨hreset, fun tokens hmem => by simp at hmem⟩
  split
  next hclosed =>
    refine ⟨hreset, fun tokens hmem => ?_⟩
    obtain rfl : tokens = parser.tokens ++ [token] := by simpa using hmem
    exact ⟨by simp, Or.inl hclosed⟩
  split
  next hlimit =>
    refine ⟨hreset, fun tokens hmem => ?_⟩
    obtain rfl : tokens = parser.tokens ++ [token] := by simpa using hmem
    refine ⟨by simp, Or.inr ?_⟩
    rintro ⟨hs, hb, hb'⟩
    omega
  · exact ⟨⟨rfl, rfl, rfl⟩, fun tokens hmem => by simp at hmem⟩

lemma StreamInv.processTokens (tokens : List JSONToken) :
    ∀ {parser : JSONMessageParser}, StreamInv parser →
      StreamInv (processTokens parser tokens).1 ∧ Emits (processTokens parser tokens).2 := by
  induction tokens with
  | nil => intro parser h; exact ⟨h, fun _ hmem => by cases hmem⟩
  | cons token tokens ih =>
    intro parser h
    obtain ⟨hinv, hemits⟩ := h.processToken token
    obtain ⟨hinv', hemits'⟩ := ih hinv
    exact ⟨hinv', hemits.append hemits'⟩

lemma StreamInv.feedChar (h : StreamInv parser) (ch : Nat) (flush : Bool) :
    StreamInv (feedChar parser ch flush).1 ∧ Emits (feedChar parser ch flush).2 :=
  StreamInv.processTokens _ ⟨h.braces, h.brackets, h.size⟩

lemma StreamInv.feed (buffer : List Nat) : ∀ {parser : JSONMessageParser}, StreamInv parser →
    StreamInv (jsonMessageParserFeed parser buffer).1 ∧
      Emits (jsonMessageParserFeed parser buffer).2 := by
  induction buffer with
  | nil => intro parser h; exact ⟨h, fun _ hmem => by cases hmem⟩
  | cons ch buffer ih =>
    intro parser h
    obtain ⟨hinv, hemits⟩ := h.feedChar ch false
    obtain ⟨hinv', hemits'⟩ := ih hinv
    exact ⟨hinv', hemits.append hemits'⟩

lemma StreamInv.flush (h : StreamInv parser) :
    StreamInv (jsonMessageParserFlush parser).1 ∧ Emits (jsonMessageParserFlush parser).2 := by
  unfold jsonMessageParserFlush
  split
  · exact ⟨h, fun _ hmem => by cases hmem⟩
  · exact h.feedChar 0 true

inductive Input
  | feed (buffer : List Nat)
  | flush

def emittedBy (parser : JSONMessageParser) : List Input → List (Option (List JSONToken))
  | [] => []
  | .feed buffer :: inputs =>
    let (parser, emitted) := jsonMessageParserFeed parser buffer
    emitted ++ emittedBy parser inputs
  | .flush :: inputs =>
    let (parser, emitted) := jsonMessageParserFlush parser
    emitted ++ emittedBy parser inputs

lemma StreamInv.emittedBy (inputs : List Input) :
    ∀ {parser : JSONMessageParser}, StreamInv parser → Emits (emittedBy parser inputs) := by
  induction inputs with
  | nil => intro parser _ _ hmem; cases hmem
  | cons input inputs ih =>
    intro parser h
    cases input with
    | feed buffer =>
      obtain ⟨hinv, hemits⟩ := StreamInv.feed buffer h
      exact hemits.append (ih hinv)
    | flush =>
      obtain ⟨hinv, hemits⟩ := h.flush
      exact hemits.append (ih hinv)

/-- For every stream of octets in any chunks whose emitted lists are all closed or within the limits,
the parser handles each of them without a failed assertion. -/
theorem parser_handles_emitted (ap : VaList) (inputs : List Input)
    (hlimits : ∀ tokens, some tokens ∈ emittedBy .init inputs → Closed tokens ∨ WithinLimits tokens) :
    ∀ emitted ∈ emittedBy .init inputs, jsonParserParseErr emitted ap ≠ .abort := by
  intro emitted hmem
  cases emitted with
  | none => nofun
  | some tokens =>
    obtain ⟨hne, hclosed⟩ := StreamInv.emittedBy inputs StreamInv.init tokens hmem
    have hclosed : Closed tokens := (hlimits tokens hmem).elim id fun hin =>
      hclosed.resolve_right fun hover => hover hin
    exact jsonParserParseErr_of_not_open ap (not_open_of_closed hne hclosed)

/-- Two messages in three chunks, the second of which closes a brace that is not open. -/
theorem parser_handles_emitted_chunks :
    (emittedBy .init [.feed (ascii "[1"), .feed (ascii ", tr"), .feed (ascii "ue]\x7d")]).length = 2 ∧
      ∀ emitted ∈ emittedBy .init [.feed (ascii "[1"), .feed (ascii ", tr"), .feed (ascii "ue]\x7d")],
        jsonParserParseErr emitted none ≠ .abort := by
  refine ⟨by decide +kernel, parser_handles_emitted none _ fun tokens hmem => ?_⟩
  have hall : ∀ emitted ∈
      emittedBy .init [.feed (ascii "[1"), .feed (ascii ", tr"), .feed (ascii "ue]\x7d")],
      emitted.all (fun tokens => decide (WithinLimits tokens)) = true := by decide +kernel
  exact .inr (of_decide_eq_true (hall (some tokens) hmem))

lemma jsonMessageParserFeed_append (parser : JSONMessageParser) (buffer buffer' : List Nat) :
    jsonMessageParserFeed parser (buffer ++ buffer') =
      ((jsonMessageParserFeed (jsonMessageParserFeed parser buffer).1 buffer').1,
        (jsonMessageParserFeed parser buffer).2 ++
          (jsonMessageParserFeed (jsonMessageParserFeed parser buffer).1 buffer').2) := by
  induction buffer generalizing parser with
  | nil => rfl
  | cons ch buffer ih => simp only [cons_append, jsonMessageParserFeed, ih, append_assoc]

def openBracket : JSONToken := ⟨.operator, ['['.toNat]⟩

lemma parseValue_brackets (ap : VaList) : ∀ (n fuel : Nat) (ctxt : Context),
    ctxt.tokens = replicate (n + 1) openBracket → parseValue ap fuel ctxt = .abort
  | _, 0, _, _ => rfl
  | _, 1, _, _ => rfl
  | 0, fuel + 2, ⟨tokens, err, args⟩, htokens => by
    obtain rfl : tokens = [openBracket] := htokens
    rfl
  | n + 1, fuel + 2, ⟨tokens, err, args⟩, htokens => by
    obtain rfl : tokens = openBracket :: openBracket :: replicate n openBracket := htokens
    have hobject : parseObject ap (fuel + 1)
        ⟨openBracket :: openBracket :: replicate n openBracket, err, args⟩ =
        .null ⟨openBracket :: openBracket :: replicate n openBracket, err, args⟩ := rfl
    have hrest := parseValue_brackets ap n fuel ⟨openBracket :: replicate n openBracket, err, args⟩ rfl
    have harray : parseArray ap (fuel + 1)
        ⟨openBracket :: openBracket :: replicate n openBracket, err, args⟩ = .abort := by
      have hopen : openBracket.isOperator '[' = true := by decide
      have hpeek : openBracket.isOperator ']' = false := by decide
      rw [parseArray]
      simp only [Context.pop, hopen, hpeek, if_true, Bool.false_eq_true, if_false, hrest]
    rw [parseValue, hobject, Result.null_orElse, harray, Result.abort_orElse]

/-- The streamer after `n` opening brackets. -/
def bracketsHeld (n : Nat) : JSONMessageParser :=
  ⟨.init, 0, n, replicate n openBracket, n⟩

lemma feedChar_bracket (h : n < 1024) :
    feedChar (bracketsHeld n) '['.toNat false = (bracketsHeld (n + 1), []) := by
  have hlex : jsonLexerFeedChar .init '['.toNat false = (.init, [openBracket]) := by decide
  have hsize : ¬ (n + 1 > maxTokenSize ∨ (n : Int) + 1 > maxNesting ∨ (0 : Int) > maxNesting) := by
    unfold maxTokenSize maxNesting
    omega
  have hopen : ¬ ((0 : Int) < 0 ∨ (n : Int) + 1 < 0 ∨ ((0 : Int) = 0 ∧ (n : Int) + 1 = 0)) := by omega
  have htoken : jsonMessageProcessToken (bracketsHeld n) openBracket =
      (bracketsHeld (n + 1), []) := by
    unfold jsonMessageProcessToken
    dsimp only [bracketsHeld]
    change (if TokenType.operator = .error then _ else
      if (0 : Int) < 0 ∨ (n : Int) + 1 < 0 ∨ ((0 : Int) = 0 ∧ (n : Int) + 1 = 0) then _ else
      if n + 1 > maxTokenSize ∨ (n : Int) + 1 > maxNesting ∨ (0 : Int) > maxNesting then _ else _) = _
    rw [if_neg nofun, if_neg hopen, if_neg hsize]
    have hlist : replicate n openBracket ++ [openBracket] =
        replicate (n + 1) openBracket := replicate_succ'.symm
    rw [hlist]
    rfl
  have htokens : processTokens (bracketsHeld n) [openBracket] = (bracketsHeld (n + 1), []) := by
    rw [processTokens, htoken]
    rfl
  have hlexer : (bracketsHeld n).lexer = .init := rfl
  rwa [feedChar, hlexer, hlex]

lemma feed_brackets (m : Nat) : ∀ n, n + m ≤ 1024 →
    jsonMessageParserFeed (bracketsHeld n) (replicate m '['.toNat) =
      (bracketsHeld (n + m), []) := by
  induction m with
  | zero => intro n _; rfl
  | succ m ih =>
    intro n hle
    rw [replicate_succ, jsonMessageParserFeed, feedChar_bracket (by omega)]
    dsimp only
    rw [ih (n + 1) (by omega), add_right_comm]
    rfl

/-- 1025 opening brackets: the list is handed over as the nesting limit is exceeded, and the parser
fails an assertion at its end. -/
theorem brackets_abort : emittedBy .init [.feed (replicate 1025 '['.toNat)] =
        [some (replicate 1025 openBracket)] ∧
      jsonParserParseErr (some (replicate 1025 openBracket)) none = .abort := by
  refine ⟨?_, ?_⟩
  · have hheld := feed_brackets 1024 0 (le_refl _)
    have hlast : feedChar (bracketsHeld 1024) '['.toNat false =
        (.init, [some (replicate 1025 openBracket)]) := by decide +kernel
    have hfeed : jsonMessageParserFeed .init (replicate 1025 '['.toNat) =
        (.init, [some (replicate 1025 openBracket)]) := by
      have hinit : JSONMessageParser.init = bracketsHeld 0 := rfl
      rw [replicate_succ', jsonMessageParserFeed_append, hinit, hheld, zero_add]
      dsimp only [jsonMessageParserFeed]
      rw [hlast]
      rfl
    rw [emittedBy, hfeed]
    rfl
  · rw [replicate_succ, jsonParserParseErr_cons, parseValue_brackets none 1024]
    rfl

end QemuVmi.Qobject
