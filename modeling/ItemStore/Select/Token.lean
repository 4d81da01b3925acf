import ItemStore.Blank
import ItemStore.Number.Numeral

/-!
# Tokens of statements

A statement is a sequence of tokens with blanks between them where they are wanted.  Keywords are
read in any letter case.  A name is bare or in double quotes, a string is in single quotes, and in
both a quote is written twice.  A number runs on over letters, digits and points, and over a sign
right behind an `e`; it must then be a numeral.

* `Token.text` is how messages show a token.
* `lexeme` reads one token, `tokens` reads them all.
-/

namespace ItemStore

/-- A token of a statement. -/
inductive Token where
  | name (s : String)
  | quotedName (s : String)
  | string (s : String)
  | number (numeral : String)
  | star
  | comma
  | dot
  | openBracket
  | closeBracket
  | eq
  | ne
  | lt
  | le
  | gt
  | ge
  | kwSelect
  | kwFrom
  | kwWhere
  | kwAnd
  | kwOr
  | kwIn
deriving DecidableEq, Repr

def Token.text : Token → String
  | name s => s!"identifier '{s}'"
  | quotedName s => s!"identifier \"{s}\""
  | string s => s!"string '{s}'"
  | number n => s!"number {n}"
  | star => "'*'"
  | comma => "','"
  | dot => "'.'"
  | openBracket => "'['"
  | closeBracket => "']'"
  | eq => "'='"
  | ne => "'<>'"
  | lt => "'<'"
  | le => "'<='"
  | gt => "'>'"
  | ge => "'>='"
  | kwSelect => "SELECT"
  | kwFrom => "FROM"
  | kwWhere => "WHERE"
  | kwAnd => "AND"
  | kwOr => "OR"
  | kwIn => "IN"

/-- What would have been right at some place of a statement. -/
inductive Expected where
  | token (t : Token)
  | name
  | operator
  | operand
  | nothing
deriving DecidableEq, Repr

def Expected.text : Expected → String
  | token t => t.text
  | name => "identifier"
  | operator => "comparison operator"
  | operand => "string or number"
  | nothing => "end of statement"

/-- Why a text is no statement. -/
inductive SelectFault where
  | strayCharacter (c : Char)
  | loneBang
  | badNumber (literal : String)
  | unterminated (quote : Char) (fragment : String)
  | unexpected (expected : Expected) (found : Token)
  | ended (expected : Expected)
deriving DecidableEq, Repr

def SelectFault.message : SelectFault → String
  | strayCharacter c => s!"Unexpected token: expected valid token, found '{c}'"
  | loneBang => "Unexpected token: expected '!=', found '!'"
  | badNumber literal => s!"Invalid number literal: {literal}"
  | unterminated quote fragment =>
    s!"Unterminated literal starting with {quote}{fragment}"
  | unexpected expected found =>
    s!"Unexpected token: expected {expected.text}, found {found.text}"
  | ended expected => s!"Unexpected end of statement: expected {expected.text}"

namespace Token

/-! ## Character classes -/

def beginsName (c : Char) : Bool :=
  c.isAlpha || c == '_'

/-- The characters that a bare name goes on with. -/
def continuesName (c : Char) : Bool :=
  c.isAlphanum || c == '_'

/-- The characters that a number goes on with after `last`. -/
def continuesNumber (last c : Char) : Bool :=
  c.isAlphanum || c == '.' || ((last == 'e' || last == 'E') && (c == '+' || c == '-'))

/-! ## Lexemes -/

/-- Split off the rest of a number, of which `last` was read. -/
def splitNumber (last : Char) : List Char → List Char × List Char
  | [] => ([], [])
  | c :: rest =>
    if continuesNumber last c then (c :: (splitNumber c rest).1, (splitNumber c rest).2)
    else ([], c :: rest)

/-- Put a character in front of quoted content, or of the fragment of it that there is. -/
def addToQuoted (c : Char) :
    Except (List Char) (List Char × List Char) → Except (List Char) (List Char × List Char)
  | .ok (content, rest) => .ok (c :: content, rest)
  | .error fragment => .error (c :: fragment)

/-- Split off quoted content behind its opening quote, together with the closing one.  Content that
is never closed is a fragment. -/
def splitQuoted (quote : Char) : List Char → Except (List Char) (List Char × List Char)
  | [] => .error []
  | [c] => if c = quote then .ok ([], []) else .error [c]
  | c :: d :: rest =>
    if c = quote then
      if d = quote then addToQuoted quote (splitQuoted quote rest) else .ok ([], d :: rest)
    else addToQuoted c (splitQuoted quote (d :: rest))

/-- A bare word is a keyword, whatever its letter case, or a name. -/
def ofWord (word : List Char) : Token :=
  match String.ofList (word.map Char.toLower) with
  | "select" => kwSelect
  | "from" => kwFrom
  | "where" => kwWhere
  | "and" => kwAnd
  | "or" => kwOr
  | "in" => kwIn
  | _ => name (String.ofList word)

/-- Read a number that begins with `c`. -/
def numberLexeme (c : Char) (rest : List Char) : Except SelectFault (Token × List Char) :=
  let literal := String.ofList (c :: (splitNumber c rest).1)
  if isNumeral literal then .ok (number literal, (splitNumber c rest).2)
  else .error (.badNumber literal)

/-- Read quoted content, whose opening quote was read. -/
def quotedLexeme (quote : Char) (token : String → Token) (rest : List Char) :
    Except SelectFault (Token × List Char) :=
  match splitQuoted quote rest with
  | .ok (content, rest) => .ok (token (String.ofList content), rest)
  | .error fragment => .error (.unterminated quote (String.ofList fragment))

def digitNext : List Char → Bool
  | c :: _ => c.isDigit
  | [] => false

/-- Read a mark, the longest there is.  A point in front of a digit is none. -/
def mark? : Char → List Char → Option (Token × List Char)
  | '*', rest => some (star, rest)
  | ',', rest => some (comma, rest)
  | '[', rest => some (openBracket, rest)
  | ']', rest => some (closeBracket, rest)
  | '=', rest => some (eq, rest)
  | '<', '=' :: rest => some (le, rest)
  | '<', '>' :: rest => some (ne, rest)
  | '<', rest => some (lt, rest)
  | '>', '=' :: rest => some (ge, rest)
  | '>', rest => some (gt, rest)
  | '!', '=' :: rest => some (ne, rest)
  | '.', rest => if digitNext rest then none else some (dot, rest)
  | _, _ => none

/-- Read the token that begins with `c`, and what follows it. -/
def lexeme (c : Char) (rest : List Char) : Except SelectFault (Token × List Char) :=
  match mark? c rest with
  | some marked => .ok marked
  | none =>
    if c == '!' then .error .loneBang
    else if c == '\'' then quotedLexeme c string rest
    else if c == '"' then quotedLexeme c quotedName rest
    else if c.isDigit || c == '-' || c == '+' || c == '.' then numberLexeme c rest
    else if beginsName c then
      .ok (ofWord (c :: rest.takeWhile continuesName), rest.dropWhile continuesName)
    else .error (.strayCharacter c)

/-! ## Lexemes leave less to read -/

theorem length_splitNumber_le (last : Char) (text : List Char) :
    (splitNumber last text).2.length ≤ text.length := by
  induction text generalizing last with
  | nil => exact Nat.le_refl _
  | cons c rest ih =>
    unfold splitNumber
    split
    · exact Nat.le_succ_of_le (ih c)
    · exact Nat.le_refl _

theorem length_splitQuoted_le {quote : Char} {text content rest : List Char}
    (h : splitQuoted quote text = .ok (content, rest)) : rest.length ≤ text.length := by
  induction text using splitQuoted.induct quote generalizing content rest with
  | case1 => simp [splitQuoted] at h
  | case2 => simp_all [splitQuoted]
  | case3 c hc => simp [splitQuoted, hc] at h
  | case4 tail ih =>
    simp only [splitQuoted, if_true] at h
    cases hs : splitQuoted quote tail with
    | error f => simp [hs, addToQuoted] at h
    | ok p =>
      simp only [hs, addToQuoted, Except.ok.injEq, Prod.mk.injEq] at h
      have := ih hs
      simp only [List.length_cons, ← h.2]
      omega
  | case5 d tail hd =>
    simp only [splitQuoted, if_true, hd, if_false, Except.ok.injEq, Prod.mk.injEq] at h
    simp [← h.2]
  | case6 c d tail hc ih =>
    simp only [splitQuoted, hc, if_false] at h
    cases hs : splitQuoted quote (d :: tail) with
    | error f => simp [hs, addToQuoted] at h
    | ok p =>
      simp only [hs, addToQuoted, Except.ok.injEq, Prod.mk.injEq] at h
      have := ih hs
      simp only [List.length_cons, ← h.2] at this ⊢
      omega

theorem length_quotedLexeme_le {quote : Char} {token : String → Token} {text rest : List Char}
    {t : Token} (h : quotedLexeme quote token text = .ok (t, rest)) :
    rest.length ≤ text.length := by
  unfold quotedLexeme at h
  split at h
  · rename_i content tail hs
    cases h
    exact length_splitQuoted_le hs
  · cases h

theorem length_numberLexeme_le {c : Char} {text rest : List Char} {t : Token}
    (h : numberLexeme c text = .ok (t, rest)) : rest.length ≤ text.length := by
  simp only [numberLexeme] at h
  split at h
  · cases h
    exact length_splitNumber_le c text
  · cases h

theorem length_mark?_le {c : Char} {text : List Char} {p : Token × List Char}
    (h : mark? c text = some p) : p.2.length ≤ text.length := by
  unfold mark? at h
  split at h
  case h_12 =>
    split at h
    · cases h
    · cases h
      exact Nat.le_refl _
  all_goals cases h
  all_goals first
    | exact Nat.le_refl _
    | exact Nat.le_succ _

/-- A token takes the character that it begins with, and gives back none. -/
theorem length_lexeme_le {c : Char} {text rest : List Char} {t : Token}
    (h : lexeme c text = .ok (t, rest)) : rest.length ≤ text.length := by
  unfold lexeme at h
  cases hm : mark? c text with
  | some marked =>
    rw [hm] at h
    cases h
    exact length_mark?_le hm
  | none =>
    rw [hm] at h
    by_cases h₁ : c == '!'
    · simp [h₁] at h
    by_cases h₂ : c == '\''
    · simp only [h₁, h₂, if_true] at h
      exact length_quotedLexeme_le h
    by_cases h₃ : c == '"'
    · simp only [h₁, h₂, h₃, if_true] at h
      exact length_quotedLexeme_le h
    by_cases h₄ : c.isDigit || c == '-' || c == '+' || c == '.'
    · simp only [h₁, h₂, h₃, h₄, if_true] at h
      exact length_numberLexeme_le h
    by_cases h₅ : beginsName c
    · simp only [h₁, h₂, h₃, h₄, h₅, if_true] at h
      cases h
      exact (List.dropWhile_sublist _).length_le
    · simp [h₁, h₂, h₃, h₄, h₅] at h

/-! ## Texts -/

/-- The tokens of a text.  The first that cannot be read is the fault of the text. -/
def tokens : List Char → Except SelectFault (List Token)
  | [] => .ok []
  | c :: rest =>
    if isBlank c then tokens rest
    else
      match _h : lexeme c rest with
      | .error e => .error e
      | .ok (t, tail) =>
        match tokens tail with
        | .error e => .error e
        | .ok ts => .ok (t :: ts)
termination_by text => text.length
decreasing_by
  · exact Nat.lt_succ_self _
  · exact Nat.lt_succ_of_le (length_lexeme_le _h)

end Token

end ItemStore
