import ItemStore.Json
import ItemStore.Json.Token

/-!
# Reading JSON

Tokens become a tree by a machine that keeps the containers it is inside of, innermost first.  Each
token either fits where it stands or breaks the text there; a break closes all open containers
around `Json.broken`.

`Json.read` reads a whole text.  Besides the tree it says whether the text is one value and nothing
more.
-/

namespace ItemStore.Json

/-- A container that is not closed yet, with its parts last first. -/
inductive Frame where
  | array (elements : List Json)
  | object (members : List (Option String × Json))
  | member (members : List (Option String × Json)) (name : Option String)

/-- What may come next inside the innermost container. -/
inductive Expectation where
  | value
  | firstElement
  | firstName
  | name
  | colon
  | separator
deriving DecidableEq

/-- The state of reading: inside some containers, or past the end of the value. -/
inductive Builder where
  | inside (expected : Expectation) (frames : List Frame)
  | ended (value : Json) (complete : Bool)

namespace Builder

def close (j : Json) : List Frame → Json
  | [] => j
  | .array elements :: rest => close (.array (elements.reverse ++ [j])) rest
  | .object members :: rest => close (.object (members.reverse ++ [(none, j)])) rest
  | .member members name :: rest => close (.object (members.reverse ++ [(name, j)])) rest

/-- The text breaks here. -/
def breakOff (frames : List Frame) : Builder :=
  .ended (close .broken frames) false

def emit (j : Json) : List Frame → Builder
  | [] => .ended j true
  | .array elements :: rest => .inside .separator (.array (j :: elements) :: rest)
  | .member members name :: rest => .inside .separator (.object ((name, j) :: members) :: rest)
  | .object members :: rest => breakOff (.object members :: rest)

def value (frames : List Frame) : Token → Builder
  | .null => emit .null frames
  | .bool b => emit (.bool b) frames
  | .number literal => emit (.number literal) frames
  | .string text => emit (.string text) frames
  | .openBracket => .inside .firstElement (.array [] :: frames)
  | .openBrace => .inside .firstName (.object [] :: frames)
  | .closeBrace | .closeBracket | .comma | .colon | .bad => breakOff frames

def name (members : List (Option String × Json)) (frames : List Frame) : Token → Builder
  | .string text => .inside .colon (.member members text :: frames)
  | _ => breakOff (.object members :: frames)

def step : Builder → Token → Builder
  | .ended j _, _ => .ended j false
  | .inside .value frames, t => value frames t
  | .inside .firstElement (.array elements :: rest), .closeBracket =>
    emit (.array elements.reverse) rest
  | .inside .firstElement frames, t => value frames t
  | .inside .firstName (.object members :: rest), .closeBrace =>
    emit (.object members.reverse) rest
  | .inside .firstName (.object members :: rest), t => name members rest t
  | .inside .name (.object members :: rest), t => name members rest t
  | .inside .colon frames, .colon => .inside .value frames
  | .inside .separator (.array elements :: rest), .comma => .inside .value (.array elements :: rest)
  | .inside .separator (.array elements :: rest), .closeBracket =>
    emit (.array elements.reverse) rest
  | .inside .separator (.object members :: rest), .comma => .inside .name (.object members :: rest)
  | .inside .separator (.object members :: rest), .closeBrace =>
    emit (.object members.reverse) rest
  | .inside _ frames, _ => breakOff frames

/-- The tree, and whether the text is exactly one value. -/
def finish : Builder → Json × Bool
  | .ended j complete => (j, complete)
  | .inside _ frames => (close .broken frames, false)

end Builder

def ofTokens (tokens : List Token) : Json × Bool :=
  (tokens.foldl Builder.step (.inside .value [])).finish

/-- The tree of a text, and whether the text is exactly one value. -/
def read (text : String) : Json × Bool :=
  ofTokens (tokens text.toList)

end ItemStore.Json
