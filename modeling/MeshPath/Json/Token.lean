/-!
# JSON tokens

The tokens of a JSON text and the automaton that reads them character by character. Blanks between
tokens are dropped. Numbers are checked against the grammar, and their values are not kept. Strings
keep their *units*: the code point of each plain character and the value of each escape, where a
`\u` escape may be one half of a surrogate pair.

* `Token.ofChars?`: the tokens of a text, `none` if it holds anything else.
* `Token.chars?`: the characters that the units of a string stand for, `none` if a half of a
  surrogate pair stands alone.
-/

namespace MeshPath.Json

/-- The tokens of a JSON text. -/
inductive Token where
  /-- An opening brace. -/
  | openBrace
  /-- A closing brace. -/
  | closeBrace
  /-- An opening bracket. -/
  | openBracket
  /-- A closing bracket. -/
  | closeBracket
  /-- A colon. -/
  | colon
  /-- A comma. -/
  | comma
  /-- The literal for no value. -/
  | null
  /-- A truth value. -/
  | bool (value : Bool)
  /-- A number. -/
  | number
  /-- A string with its units. -/
  | text (units : List Nat)
deriving DecidableEq, Repr

/-- The places inside a number. -/
inductive NumberPart where
  /-- After the sign. -/
  | sign
  /-- After a leading zero, which no digit may follow. -/
  | zero
  /-- After a digit of the integer. -/
  | integer
  /-- After the point. -/
  | point
  /-- After a digit of the fraction. -/
  | fraction
  /-- After the mark of the exponent. -/
  | exponent
  /-- After the sign of the exponent. -/
  | exponentSign
  /-- After a digit of the exponent. -/
  | exponentDigits
deriving DecidableEq, Repr

namespace NumberPart

/-- Whether a number may end here. -/
def mayEnd : NumberPart → Bool
  | zero | integer | fraction | exponentDigits => true
  | sign | point | exponent | exponentSign => false

/-- The place after one more character, if the number goes on with it. -/
def next? (p : NumberPart) (c : Char) : Option NumberPart :=
  match p with
  | sign => if c = '0' then some zero else if c.isDigit then some integer else none
  | zero => if c = '.' then some point else if c = 'e' ∨ c = 'E' then some exponent else none
  | integer =>
    if c.isDigit then some integer
    else if c = '.' then some point
    else if c = 'e' ∨ c = 'E' then some exponent
    else none
  | point => if c.isDigit then some fraction else none
  | fraction =>
    if c.isDigit then some fraction
    else if c = 'e' ∨ c = 'E' then some exponent
    else none
  | exponent =>
    if c = '+' ∨ c = '-' then some exponentSign
    else if c.isDigit then some exponentDigits
    else none
  | exponentSign => if c.isDigit then some exponentDigits else none
  | exponentDigits => if c.isDigit then some exponentDigits else none

end NumberPart

/-- Where the reader of tokens stands. -/
inductive Reader where
  /-- Between two tokens. -/
  | between
  /-- Inside a literal, with the characters that are still due. -/
  | literal (token : Token) (due : List Char)
  /-- Inside a number. -/
  | number (part : NumberPart)
  /-- Inside a string, with the units read so far, the last one first. -/
  | text (read : List Nat)
  /-- After a backslash inside a string. -/
  | escape (read : List Nat)
  /-- Inside a `\u` escape, with its value so far and the number of digits due. -/
  | hex (read : List Nat) (value due : Nat)

namespace Reader

/-- The value of a hexadecimal digit. -/
def hexValue? (c : Char) : Option Nat :=
  if c.isDigit then some (c.toNat - '0'.toNat)
  else if 'a' ≤ c ∧ c ≤ 'f' then some (c.toNat - 'a'.toNat + 10)
  else if 'A' ≤ c ∧ c ≤ 'F' then some (c.toNat - 'A'.toNat + 10)
  else none

/-- The code point that a short escape stands for. -/
def shortEscape? : Char → Option Nat
  | '"' => some 0x22
  | '\\' => some 0x5c
  | '/' => some 0x2f
  | 'b' => some 0x08
  | 'f' => some 0x0c
  | 'n' => some 0x0a
  | 'r' => some 0x0d
  | 't' => some 0x09
  | _ => none

/-- The first character after a token: the token it is, if any, and where the reader stands. -/
def start? : Char → Option (List Token × Reader)
  | ' ' | '\n' | '\t' | '\r' => some ([], between)
  | '\x7b' => some ([.openBrace], between)
  | '\x7d' => some ([.closeBrace], between)
  | '[' => some ([.openBracket], between)
  | ']' => some ([.closeBracket], between)
  | ':' => some ([.colon], between)
  | ',' => some ([.comma], between)
  | 'n' => some ([], literal .null ['u', 'l', 'l'])
  | 't' => some ([], literal (.bool true) ['r', 'u', 'e'])
  | 'f' => some ([], literal (.bool false) ['a', 'l', 's', 'e'])
  | '"' => some ([], text [])
  | '-' => some ([], number .sign)
  | '0' => some ([], number .zero)
  | c => if c.isDigit then some ([], number .integer) else none

/-- One more character: the tokens that end with it, and where the reader stands. -/
def step? (r : Reader) (c : Char) : Option (List Token × Reader) :=
  match r with
  | between => start? c
  | literal _ [] => none
  | literal token [d] => if c = d then some ([token], between) else none
  | literal token (d :: ds) => if c = d then some ([], literal token ds) else none
  | number part =>
    match part.next? c with
    | some part => some ([], number part)
    | none =>
      if part.mayEnd then (start? c).map fun next => (.number :: next.1, next.2) else none
  | text read =>
    if c = '"' then some ([.text read.reverse], between)
    else if c = '\\' then some ([], escape read)
    else if c.toNat < 0x20 then none
    else some ([], text (c.toNat :: read))
  | escape read =>
    if c = 'u' then some ([], hex read 0 4)
    else (shortEscape? c).map fun unit => ([], text (unit :: read))
  | hex read value due =>
    (hexValue? c).map fun digit =>
      if due ≤ 1 then ([], text ((16 * value + digit) :: read))
      else ([], hex read (16 * value + digit) (due - 1))

/-- The tokens that the end of the text ends, if the text may end here. -/
def finish? : Reader → Option (List Token)
  | between => some []
  | number part => if part.mayEnd then some [.number] else none
  | _ => none

/-- The tokens of the characters that follow. -/
def tokens? (r : Reader) : List Char → Option (List Token)
  | [] => r.finish?
  | c :: cs =>
    match r.step? c with
    | none => none
    | some (tokens, r) => (r.tokens? cs).map (tokens ++ ·)

end Reader

namespace Token

/-- The tokens of a text. -/
def ofChars? (cs : List Char) : Option (List Token) := Reader.between.tokens? cs

/-- Whether a unit is the first half of a surrogate pair. -/
def isHighHalf (u : Nat) : Bool := 0xd800 ≤ u && u < 0xdc00

/-- Whether a unit is the second half of a surrogate pair. -/
def isLowHalf (u : Nat) : Bool := 0xdc00 ≤ u && u < 0xe000

/-- The characters that units stand for: two halves of a pair stand for one character, and no half
may stand alone. -/
def chars? : List Nat → Option (List Char)
  | [] => some []
  | u :: v :: rest =>
    if isHighHalf u then
      if isLowHalf v then
        (chars? rest).map (Char.ofNat (0x10000 + (u - 0xd800) * 0x400 + (v - 0xdc00)) :: ·)
      else none
    else if isLowHalf u then none
    else (chars? (v :: rest)).map (Char.ofNat u :: ·)
  | [u] => if isHighHalf u || isLowHalf u then none else some [Char.ofNat u]

end Token

end MeshPath.Json
