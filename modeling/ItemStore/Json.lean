/-!
# JSON

JSON values as they are found in a text.  A text may stop being JSON half way through, and a request
is then refused for the first thing that is wrong with it, be that its content or its syntax.  So
the tree of a text keeps everything that was read before the syntax failed, with `broken` where it
did.

* A string is `none` when an escape in it stands for half of a surrogate pair; such a string is
  good syntax and denotes no text.
* A member whose name was not read has the name `none` and the value `broken`.
* `Json.isWhole` says that nothing is broken, and `Json.isWritable` that strings denote texts, too.
* `Json.render` writes a value in one line, with every control character escaped.
-/

namespace ItemStore

/-- A JSON value, perhaps with a break in it. -/
inductive Json where
  | null
  | bool (b : Bool)
  | number (literal : String)
  | string (text : Option String)
  | array (elements : List Json)
  | object (members : List (Option String × Json))
  | broken
deriving Repr, Inhabited

namespace Json

/-! ## Building values -/

def text (s : String) : Json :=
  .string (some s)

def nat (n : Nat) : Json :=
  .number n.repr

def int (i : Int) : Json :=
  .number i.repr

def record (members : List (String × Json)) : Json :=
  .object (members.map fun m => (some m.1, m.2))

def arrayOf {α : Type} (encode : α → Json) (elements : List α) : Json :=
  .array (elements.map encode)

/-- A member that is written only when there is a value for it. -/
def optional {α : Type} (name : String) (encode : α → Json) : Option α → List (String × Json)
  | some a => [(name, encode a)]
  | none => []

/-- A member that is written only when its list holds something. -/
def nonempty {α : Type} (name : String) (encode : List α → Json) (elements : List α) :
    List (String × Json) :=
  if elements.isEmpty then [] else [(name, encode elements)]

/-! ## Wholeness -/

mutual

def isWhole : Json → Bool
  | .array elements => allWhole elements
  | .object members => membersWhole members
  | .broken => false
  | .null | .bool _ | .number _ | .string _ => true

def allWhole : List Json → Bool
  | [] => true
  | j :: rest => isWhole j && allWhole rest

def membersWhole : List (Option String × Json) → Bool
  | [] => true
  | (_, j) :: rest => isWhole j && membersWhole rest

end

/-! ## Writing -/

mutual

/-- Whether a value can be written: nothing in it is broken, and its strings and names denote
texts. -/
def isWritable : Json → Bool
  | .string text => text.isSome
  | .array elements => elementsWritable elements
  | .object members => membersWritable members
  | .broken => false
  | .null | .bool _ | .number _ => true

def elementsWritable : List Json → Bool
  | [] => true
  | j :: rest => isWritable j && elementsWritable rest

def membersWritable : List (Option String × Json) → Bool
  | [] => true
  | (name, j) :: rest => name.isSome && isWritable j && membersWritable rest

end

/-- The hexadecimal digit of a number below sixteen, in lower case. -/
def hexDigit (n : Nat) : Char :=
  Nat.digitChar n

/-- A character of a string literal.  Quote, backslash and control characters are escaped, those
with a short escape by it; everything else stands for itself. -/
def escapeChar (c : Char) : List Char :=
  if c = '"' then ['\\', '"']
  else if c = '\\' then ['\\', '\\']
  else if c = '\x08' then ['\\', 'b']
  else if c = '\x0c' then ['\\', 'f']
  else if c = '\n' then ['\\', 'n']
  else if c = '\r' then ['\\', 'r']
  else if c = '\t' then ['\\', 't']
  else if c.toNat < 32 then ['\\', 'u', '0', '0', hexDigit (c.toNat / 16), hexDigit (c.toNat % 16)]
  else [c]

/-- A string literal.  A string that denotes no text is written as one that again denotes none. -/
def renderString : Option String → List Char
  | some s => '"' :: s.toList.flatMap escapeChar ++ ['"']
  | none => ['"', '\\', 'u', 'd', '8', '0', '0', '"']

mutual

def chars : Json → List Char
  | .null => ['n', 'u', 'l', 'l']
  | .bool true => ['t', 'r', 'u', 'e']
  | .bool false => ['f', 'a', 'l', 's', 'e']
  | .number literal => literal.toList
  | .string s => renderString s
  | .array elements => '[' :: elementChars elements ++ [']']
  | .object members => '\x7b' :: memberChars members ++ ['\x7d']
  | .broken => []

/-- The characters of elements, separated by commas. -/
def elementChars : List Json → List Char
  | [] => []
  | [j] => chars j
  | j :: rest => chars j ++ ',' :: elementChars rest

/-- The characters of members, separated by commas. -/
def memberChars : List (Option String × Json) → List Char
  | [] => []
  | [(name, j)] => renderString name ++ ':' :: chars j
  | (name, j) :: rest => renderString name ++ ':' :: chars j ++ ',' :: memberChars rest

end

def render (j : Json) : String :=
  String.ofList (chars j)

end Json

end ItemStore
