import SnmpAgent.Text.Digits

/-!
# JSON text

A JSON text is one value between blanks. It is read strictly: no comments, no
trailing commas, no control characters in strings, and every escaped surrogate
paired.

* `JsonValue.parse?`: the value of a text;
* `JsonValue.value?`: the value at the beginning of some characters, and what
  follows it.

Values nest to any depth; the readers of nested values are given a bound on the
number of steps, and the length of the text is bound enough.
-/

namespace SnmpAgent

/-- A JSON value. A number is kept only where it is written as digits alone, and
    the members of an object stay in the order in which they are written. -/
inductive JsonValue where
  | null
  | bool (b : Bool)
  | number (natural : Option Nat)
  | string (text : List Char)
  | array (items : List JsonValue)
  | object (members : List (List Char × JsonValue))

namespace JsonValue

/-- A reader of something at the beginning of a text, which also gives what
    follows. -/
abbrev Reads (α : Type) := List Char → Option (α × List Char)

/-- Whether a character may stand between the parts of a text. -/
def isBlank (c : Char) : Bool := c = ' ' ∨ c = '\t' ∨ c = '\n' ∨ c = '\r'

/-- A text without the blanks at its beginning. -/
def skipBlanks (text : List Char) : List Char := text.dropWhile isBlank

/-- A given word. -/
def word? (word : List Char) (v : JsonValue) : Reads JsonValue := fun text =>
  if word.isPrefixOf text then some (v, text.drop word.length) else none

/-- The number that four hexadecimal digits denote. -/
def hex4? : Reads Nat
  | a :: b :: c :: d :: rest => (Text.hexadecimal? [a, b, c, d]).map fun n => (n, rest)
  | _ => none

/-- Whether a number is the first half of a surrogate pair. -/
def isHighSurrogate (n : Nat) : Bool := 0xD800 ≤ n ∧ n < 0xDC00

/-- Whether a number is the second half of a surrogate pair. -/
def isLowSurrogate (n : Nat) : Bool := 0xDC00 ≤ n ∧ n < 0xE000

/-- A character written as one number, or as two that form a surrogate pair,
    after the first mark. -/
def unicode? : Reads Char := fun text => do
  let (n, rest) ← hex4? text
  if isHighSurrogate n then
    match rest with
    | '\\' :: 'u' :: rest =>
      let (m, rest) ← hex4? rest
      if isLowSurrogate m then
        some (Char.ofNat (0x10000 + (n - 0xD800) * 0x400 + (m - 0xDC00)), rest)
      else none
    | _ => none
  else if isLowSurrogate n then none
  else some (Char.ofNat n, rest)

/-- A character of a string after a backslash. -/
def escaped? : Reads Char
  | '"' :: rest => some ('"', rest)
  | '\\' :: rest => some ('\\', rest)
  | '/' :: rest => some ('/', rest)
  | 'b' :: rest => some ('\x08', rest)
  | 'f' :: rest => some ('\x0c', rest)
  | 'n' :: rest => some ('\n', rest)
  | 'r' :: rest => some ('\r', rest)
  | 't' :: rest => some ('\t', rest)
  | 'u' :: rest => unicode? rest
  | _ => none

/-- The characters of a string up to its closing quote, in at most `steps`
    steps. -/
def characters? : (steps : Nat) → Reads (List Char)
  | 0, _ => none
  | steps + 1, text =>
    match text with
    | [] => none
    | '"' :: rest => some ([], rest)
    | '\\' :: rest => do
      let (c, rest) ← escaped? rest
      let (cs, rest) ← characters? steps rest
      return (c :: cs, rest)
    | c :: rest =>
      if c.toNat < 0x20 then none
      else do
        let (cs, rest) ← characters? steps rest
        return (c :: cs, rest)

/-- Whether a character is a decimal digit. -/
def isDigit (c : Char) : Bool := '0' ≤ c ∧ c ≤ '9'

/-- At least one digit. -/
def digits? : Reads (List Char) := fun text =>
  let (digits, rest) := text.span isDigit
  if digits.isEmpty then none else some (digits, rest)

/-- The whole part of a number, which has no superfluous zero. -/
def whole? : Reads (List Char) := fun text => do
  let (digits, rest) ← digits? text
  if digits.head? = some '0' ∧ 1 < digits.length then none else some (digits, rest)

/-- The fraction of a number; whether there is one, and what follows. -/
def fraction? : Reads Bool
  | '.' :: rest => do return (true, (← digits? rest).2)
  | text => some (false, text)

/-- The exponent of a number; whether there is one, and what follows. -/
def exponent? : Reads Bool
  | mark :: rest =>
    if mark = 'e' ∨ mark = 'E' then
      match rest with
      | sign :: rest' =>
        if sign = '+' ∨ sign = '-' then do return (true, (← digits? rest').2)
        else do return (true, (← digits? rest).2)
      | [] => none
    else some (false, mark :: rest)
  | [] => some (false, [])

/-- A number. -/
def number? : Reads JsonValue := fun text => do
  let (negative, rest) := match text with
    | '-' :: rest => (true, rest)
    | _ => (false, text)
  let (digits, rest) ← whole? rest
  let (fraction, rest) ← fraction? rest
  let (exponent, rest) ← exponent? rest
  return (.number (if negative ∨ fraction ∨ exponent then none else Text.decimal? digits), rest)

mutual

/-- A value, in at most `steps` steps. -/
def value? : (steps : Nat) → Reads JsonValue
  | 0, _ => none
  | steps + 1, text =>
    match text with
    | '[' :: rest =>
      match skipBlanks rest with
      | ']' :: rest => some (.array [], rest)
      | rest => do
        let (items, rest) ← items? steps rest
        return (.array items, rest)
    | '\x7b' :: rest =>
      match skipBlanks rest with
      | '\x7d' :: rest => some (.object [], rest)
      | rest => do
        let (members, rest) ← members? steps rest
        return (.object members, rest)
    | '"' :: rest => do
      let (cs, rest) ← characters? steps rest
      return (.string cs, rest)
    | 'n' :: _ => word? ['n', 'u', 'l', 'l'] .null text
    | 't' :: _ => word? ['t', 'r', 'u', 'e'] (.bool true) text
    | 'f' :: _ => word? ['f', 'a', 'l', 's', 'e'] (.bool false) text
    | _ => number? text

/-- The items of an array up to its closing bracket, in at most `steps` steps. -/
def items? : (steps : Nat) → Reads (List JsonValue)
  | 0, _ => none
  | steps + 1, text => do
    let (item, rest) ← value? steps (skipBlanks text)
    match skipBlanks rest with
    | ']' :: rest => return ([item], rest)
    | ',' :: rest =>
      let (items, rest) ← items? steps rest
      return (item :: items, rest)
    | _ => none

/-- The members of an object up to its closing brace, in at most `steps` steps. -/
def members? : (steps : Nat) → Reads (List (List Char × JsonValue))
  | 0, _ => none
  | steps + 1, text => do
    match skipBlanks text with
    | '"' :: rest =>
      let (key, rest) ← characters? steps rest
      match skipBlanks rest with
      | ':' :: rest =>
        let (v, rest) ← value? steps (skipBlanks rest)
        match skipBlanks rest with
        | '\x7d' :: rest => return ([(key, v)], rest)
        | ',' :: rest =>
          let (members, rest) ← members? steps rest
          return ((key, v) :: members, rest)
        | _ => none
      | _ => none
    | _ => none

end

/-- The value of a text. -/
def parse? (text : List Char) : Option JsonValue := do
  let (v, rest) ← value? (2 * text.length + 1) (skipBlanks text)
  if (skipBlanks rest).isEmpty then some v else none

end JsonValue

end SnmpAgent
