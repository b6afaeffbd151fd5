import QemuVmi.Qobject.JsonParser

/-!
# Objects as JSON text

`qobject/qjson.c` and `mod_utf8_codepoint` of `util/unicode.c`: `qobject_to_json`, which writes every
character that is not printable ASCII as an escape, and `qobject_from_json`.
-/

namespace QemuVmi.Qobject

/-- The loop over `mask` in `mod_utf8_codepoint`: how many bits from bit `k - 1` downwards are set. -/
def leadingOnes (byte : Nat) : Nat → Nat
  | 0 => 0
  | k + 1 => if byte &&& (1 <<< k) ≠ 0 then leadingOnes byte k + 1 else 0

/-- The loop over the continuation bytes: `none` where one is missing, and the rest of the text. -/
def continuation : Nat → Nat → List Nat → Option Nat × List Nat
  | 0, cp, p => (some cp, p)
  | _ + 1, _, [] => (none, [])
  | len + 1, cp, byte :: p =>
    if byte &&& 0xC0 = 0x80 then continuation len ((cp <<< 6) ||| (byte &&& 0x3F)) p
    else (none, byte :: p)

def minCp (len : Nat) : Nat := [0x80, 0x800, 0x10000, 0x200000, 0x4000000].getD (len - 2) 0

/-- `mod_utf8_codepoint` for `n` of 6, which is not less than any length: the code point, `none` for
-1, and the text at `end`. -/
def modUtf8Codepoint : List Nat → Option Nat × List Nat
  | [] => (none, [])
  | byte :: p =>
    if byte = 0 then (none, byte :: p)
    else if byte < 0x80 then (some byte, p)
    else if byte ≥ 0xFE then (none, p)
    else if byte &&& 0x40 = 0 then (none, p)
    else
      let len := leadingOnes byte 8
      let mask := 1 <<< (7 - len)
      match continuation (len - 1) (byte &&& (mask - 1)) p with
      | (none, p) => (none, p)
      | (some cp, p) =>
        if cp > 0x10FFFF then (none, p)
        else if (cp ≥ 0xFDD0 ∧ cp ≤ 0xFDEF) ∨ cp &&& 0xFFFE = 0xFFFE then (none, p)
        else if cp ≥ 0xD800 ∧ cp ≤ 0xDFFF then (none, p)
        else if cp < minCp len ∧ ¬ (cp = 0 ∧ len = 2) then (none, p)
        else (some cp, p)

def hexUpper (digit : Nat) : Nat :=
  if digit < 10 then '0'.toNat + digit else 'A'.toNat + (digit - 10)

/-- The text of `\u%04X` for a number of 16 bits. -/
def unicodeEscape (v : Nat) : List Nat :=
  [backslash, 'u'.toNat, hexUpper (v / 0x1000 % 0x10), hexUpper (v / 0x100 % 0x10),
    hexUpper (v / 0x10 % 0x10), hexUpper (v % 0x10)]

/-- What `to_json` appends for a character of a string. -/
def charText (cp : Option Nat) : List Nat :=
  let cp := cp.getD 0xFFFD
  if cp = dquote then [backslash, dquote]
  else if cp = backslash then [backslash, backslash]
  else if cp = 0x08 then [backslash, 'b'.toNat]
  else if cp = 0x0c then [backslash, 'f'.toNat]
  else if cp = 0x0a then [backslash, 'n'.toNat]
  else if cp = 0x0d then [backslash, 'r'.toNat]
  else if cp = 0x09 then [backslash, 't'.toNat]
  else if cp > 0xFFFF then
    unicodeEscape (0xD800 + ((cp - 0x10000) >>> 10)) ++
      unicodeEscape (0xDC00 + ((cp - 0x10000) &&& 0x3FF))
  else if cp < 0x20 ∨ cp ≥ 0x7F then unicodeEscape cp
  else [cp]

/-- The loop over the characters of a string. Each round takes an octet or more, so that there are at
most as many as octets. -/
def charsText : Nat → List Nat → List Nat
  | 0, _ => []
  | n + 1, ptr =>
    match ptr with
    | [] => []
    | 0 :: _ => []
    | ptr =>
      let (cp, rest) := modUtf8Codepoint ptr
      charText cp ++ charsText n rest

def stringText (value : List Nat) : List Nat :=
  [dquote] ++ charsText value.length value ++ [dquote]

/-- The digits of a number, in front of `text`. A number has at most as many digits as its value. -/
def decimalLoop : Nat → Nat → List Nat → List Nat
  | 0, _, text => text
  | n + 1, value, text =>
    let text := ('0'.toNat + value % 10) :: text
    if value / 10 = 0 then text else decimalLoop n (value / 10) text

/-- The text of `%PRId64`. -/
def intText (value : Int) : List Nat :=
  if value < 0 then '-'.toNat :: decimalLoop (value.natAbs + 1) value.natAbs []
  else decimalLoop (value.natAbs + 1) value.natAbs []

/-- A new line with `indent` levels of indentation, where the output is pretty. -/
def newline (pretty : Bool) (indent : Nat) : List Nat :=
  if pretty then 0x0a :: List.replicate (4 * indent) 0x20 else []

/-- `if (s->count) qstring_append(s->str, ", ")` -/
def separator (first : Bool) : List Nat := if first then [] else [','.toNat, 0x20]

mutual
/-- `to_json`. A float is printed as the text it was read from: how its digits are rounded is not
modelled. -/
def toJson (pretty : Bool) (indent : Nat) : QObject → List Nat
  | .int value => intText value
  | .string value => stringText value
  | .bool value => if value then ascii "true" else ascii "false"
  | .float text => text
  | .dict entries =>
    ['{'.toNat] ++ toJsonEntries pretty (indent + 1) true entries ++ newline pretty indent ++
      ['}'.toNat]
  | .list items =>
    ['['.toNat] ++ toJsonItems pretty (indent + 1) true items ++ newline pretty indent ++ [']'.toNat]

/-- `to_json_dict_iter` for the entries that are left. -/
def toJsonEntries (pretty : Bool) (indent : Nat) (first : Bool) :
    List (List Nat × QObject) → List Nat
  | [] => []
  | (key, value) :: entries =>
    separator first ++ newline pretty indent ++ stringText key ++ [':'.toNat, 0x20] ++
      toJson pretty indent value ++ toJsonEntries pretty indent false entries

/-- `to_json_list_iter` for the items that are left. -/
def toJsonItems (pretty : Bool) (indent : Nat) (first : Bool) : List QObject → List Nat
  | [] => []
  | value :: items =>
    separator first ++ newline pretty indent ++ toJson pretty indent value ++
      toJsonItems pretty indent false items
end

/-- `qobject_to_json` and `qobject_to_json_pretty` -/
def qobjectToJson (pretty : Bool) (obj : QObject) : List Nat := toJson pretty 0 obj

/-- `parse_json` for each list that is emitted: the last result is kept. -/
def lastResult : Parsed → List (Option (List JSONToken)) → Parsed
  | result, [] => result
  | .abort, _ => .abort
  | _, tokens :: emitted => lastResult (jsonParserParseErr tokens none) emitted

def qobjectFromJson (string : List Nat) : Parsed :=
  let (parser, emitted) := jsonMessageParserFeed .init string
  let (_, emitted') := jsonMessageParserFlush parser
  lastResult (.null none) (emitted ++ emitted')

end QemuVmi.Qobject
