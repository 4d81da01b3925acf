import ItemStore.Blank
import ItemStore.Service

/-!
# Scripts

A script is a text with one command a line: the name of an operation, white space, and the body of
the request.  The body may be missing and is then an empty object.  Empty lines and lines that begin
with `#` are no commands.

Every command is answered by one line, whether it succeeds or fails, and the next one finds the
store as it left it.

* `Command.ofLine?` reads one line.
* `Store.execute` answers one command.
* `Store.runScript` answers the commands of a script.
-/

namespace ItemStore

/-! ## Lines -/

/-- The lines of a text, without the line feeds between them. -/
def splitLines : List Char → List (List Char)
  | [] => [[]]
  | c :: rest =>
    if c = '\n' then [] :: splitLines rest
    else
      match splitLines rest with
      | line :: lines => (c :: line) :: lines
      | [] => [[c]]

def trimStart (text : List Char) : List Char :=
  text.dropWhile isWhiteSpace

def trim (text : List Char) : List Char :=
  (trimStart (trimStart text).reverse).reverse

/-! ## Commands -/

/-- A command of a script. -/
structure Command where
  operation : String
  body : String
deriving DecidableEq, Repr

namespace Command

/-- The body that stands behind the name of an operation. -/
def bodyOf (text : List Char) : String :=
  match trimStart text with
  | [] => "\x7b\x7d"
  | body => String.ofList body

/-- The command on a line, if it has one. -/
def ofLine? (line : List Char) : Option Command :=
  match trim line with
  | [] => none
  | '#' :: _ => none
  | text =>
    some ⟨String.ofList (text.takeWhile fun c => !isWhiteSpace c),
      bodyOf (text.dropWhile fun c => !isWhiteSpace c)⟩

def ofScript (script : String) : List Command :=
  (splitLines script.toList).filterMap ofLine?

/-- The line that answers a command: the response, or a report. -/
def lineOf : Except Report String → String
  | .ok text => text
  | .error report => (Wire.encodeReport report).render

end Command

namespace Store

def execute (s : Store) (stamp : Stamp) (c : Command) : String × Store :=
  let (result, s) := s.dispatch stamp c.operation c.body
  (Command.lineOf result, s)

/-- Answer commands one after the other.  The stamp of a command goes by its number. -/
def executeAll (stamps : Nat → Stamp) (number : Nat) (s : Store) : List Command → List String
  | [] => []
  | c :: rest =>
    let (line, s) := s.execute (stamps number) c
    line :: executeAll stamps (number + 1) s rest

def runScript (stamps : Nat → Stamp) (s : Store) (script : String) : List String :=
  s.executeAll stamps 0 (Command.ofScript script)

end Store

end ItemStore
