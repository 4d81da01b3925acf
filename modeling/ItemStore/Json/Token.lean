import ItemStore.Number.Numeral

/-!
# JSON tokens

The lexemes of JSON, read one character at a time.  A `Scanner` holds the tokens read so far and
what the next character continues: nothing, a word, a number or a string.  Where no token can go on
there is a `bad` token, and nothing is read after it.

A word is complete with its last letter, so `truex` is the token `true` and then a bad one; a number
goes on for as long as characters of numbers follow.
-/

namespace ItemStore.Json

/-- A lexeme of JSON. -/
inductive Token where
  | openBrace
  | closeBrace
  | openBracket
  | closeBracket
  | comma
  | colon
  | null
  | bool (b : Bool)
  | number (literal : String)
  | string (text : Option String)
  | bad
deriving DecidableEq, Repr

/-! ## Numbers -/

/-- Digits with no leading zero, and what follows them. -/
def splitWhole : List Char → Option (List Char)
  | '0' :: rest => some rest
  | text =>
    if (text.takeWhile Char.isDigit).isEmpty then none else some (text.dropWhile Char.isDigit)

/-- A point and digits, if there is a point, and what follows them. -/
def splitPlaces : List Char → Option (List Char)
  | '.' :: rest =>
    if (rest.takeWhile Char.isDigit).isEmpty then none else some (rest.dropWhile Char.isDigit)
  | text => some text

/-- Whether a text is a number of JSON, which is stricter than a numeral: no plus sign in front, no
leading zero, and digits on both sides of a point. -/
def isNumber (text : List Char) : Bool :=
  let body := match text with
    | '-' :: rest => rest
    | _ => text
  match (splitWhole body).bind splitPlaces with
  | some tail => (Numeral.exponent? tail).isSome
  | none => false

def isNumberChar (c : Char) : Bool :=
  c.isDigit || c == '-' || c == '+' || c == '.' || c == 'e' || c == 'E'

/-! ## Strings -/

/-- The text of a sequence of code units.  A raw character is one unit; an escape is a unit of 16
bits, and two of those may be the halves of one character. -/
def textOfUnits : List Nat → Option (List Char)
  | [] => some []
  | [u] => if 0xD800 ≤ u ∧ u < 0xE000 then none else some [Char.ofNat u]
  | u :: v :: rest =>
    if 0xD800 ≤ u ∧ u < 0xDC00 then
      if 0xDC00 ≤ v ∧ v < 0xE000 then
        (textOfUnits rest).map
          (Char.ofNat (0x10000 + (u - 0xD800) * 0x400 + (v - 0xDC00)) :: ·)
      else none
    else if 0xDC00 ≤ u ∧ u < 0xE000 then none
    else (textOfUnits (v :: rest)).map (Char.ofNat u :: ·)

/-- The character that a one-letter escape stands for. -/
def shortEscape? (c : Char) : Option Char :=
  match c with
  | '"' => some '"'
  | '\\' => some '\\'
  | '/' => some '/'
  | 'b' => some '\x08'
  | 'f' => some '\x0c'
  | 'n' => some '\n'
  | 'r' => some '\r'
  | 't' => some '\t'
  | _ => none

/-- The value of a hexadecimal digit of either case. -/
def hexValue? (c : Char) : Option Nat :=
  if c.isDigit then some (c.toNat - '0'.toNat)
  else if 'a' ≤ c ∧ c ≤ 'f' then some (c.toNat - 'a'.toNat + 10)
  else if 'A' ≤ c ∧ c ≤ 'F' then some (c.toNat - 'A'.toNat + 10)
  else none

/-! ## The scanner -/

/-- What the next character continues.  The units of a string are kept last first. -/
inductive Mode where
  | between
  | word (rest : List Char) (token : Token)
  | number (reversed : List Char)
  | string (units : List Nat)
  | escape (units : List Nat)
  | hex (units : List Nat) (value missing : Nat)
  | stuck

/-- The tokens read so far, last first, and what comes next. -/
structure Scanner where
  tokens : List Token
  mode : Mode

namespace Scanner

/-- The blanks of JSON. -/
def isBlank (c : Char) : Bool :=
  c == ' ' || c == '\t' || c == '\n' || c == '\r'

def numberToken (reversed : List Char) : Token :=
  if isNumber reversed.reverse then .number (String.ofList reversed.reverse) else .bad

def stringToken (units : List Nat) : Token :=
  .string ((textOfUnits units.reverse).map String.ofList)

/-- Stop for good. -/
def stop (tokens : List Token) : Scanner :=
  ⟨.bad :: tokens, .stuck⟩

/-- Read a character that begins a token or stands between two. -/
def start (tokens : List Token) (c : Char) : Scanner :=
  if isBlank c then ⟨tokens, .between⟩
  else if c.isDigit || c == '-' then ⟨tokens, .number [c]⟩
  else
    match c with
    | '\x7b' => ⟨.openBrace :: tokens, .between⟩
    | '\x7d' => ⟨.closeBrace :: tokens, .between⟩
    | '[' => ⟨.openBracket :: tokens, .between⟩
    | ']' => ⟨.closeBracket :: tokens, .between⟩
    | ',' => ⟨.comma :: tokens, .between⟩
    | ':' => ⟨.colon :: tokens, .between⟩
    | '"' => ⟨tokens, .string []⟩
    | 'n' => ⟨tokens, .word ['u', 'l', 'l'] .null⟩
    | 't' => ⟨tokens, .word ['r', 'u', 'e'] (.bool true)⟩
    | 'f' => ⟨tokens, .word ['a', 'l', 's', 'e'] (.bool false)⟩
    | _ => stop tokens

def step (s : Scanner) (c : Char) : Scanner :=
  match s.mode with
  | .between => start s.tokens c
  | .word (d :: rest) token =>
    if c ≠ d then stop s.tokens
    else if rest.isEmpty then ⟨token :: s.tokens, .between⟩
    else ⟨s.tokens, .word rest token⟩
  | .word [] _ => stop s.tokens
  | .number reversed =>
    if isNumberChar c then ⟨s.tokens, .number (c :: reversed)⟩
    else
      match numberToken reversed with
      | .bad => stop s.tokens
      | token => start (token :: s.tokens) c
  | .string units =>
    if c == '"' then ⟨stringToken units :: s.tokens, .between⟩
    else if c == '\\' then ⟨s.tokens, .escape units⟩
    else if c.toNat < 32 then stop s.tokens
    else ⟨s.tokens, .string (c.toNat :: units)⟩
  | .escape units =>
    if c == 'u' then ⟨s.tokens, .hex units 0 4⟩
    else
      match shortEscape? c with
      | some d => ⟨s.tokens, .string (d.toNat :: units)⟩
      | none => stop s.tokens
  | .hex units value missing =>
    match hexValue? c with
    | some d =>
      let value := 16 * value + d
      if missing = 1 then ⟨s.tokens, .string (value :: units)⟩
      else ⟨s.tokens, .hex units value (missing - 1)⟩
    | none => stop s.tokens
  | .stuck => s

/-- The tokens when no character is left.  What was begun and not ended is a bad token. -/
def finish (s : Scanner) : List Token :=
  match s.mode with
  | .between | .stuck => s.tokens.reverse
  | .number reversed => (numberToken reversed :: s.tokens).reverse
  | .word _ _ | .string _ | .escape _ | .hex _ _ _ => (.bad :: s.tokens).reverse

end Scanner

/-- The tokens of a text, up to the first bad one. -/
def tokens (text : List Char) : List Token :=
  (text.foldl Scanner.step ⟨[], .between⟩).finish

end ItemStore.Json
