import ItemStore.Script
import Std.Time.DateTime

/-!
# The command line

Runs the script in a file, or the one on standard input, against a store that is empty at first, and
prints one line of JSON for each command.

Two variables of the environment have a say: one names the region of the tables, and the other, if
it is set, turns the enforcement of key types off unless it is one of the words for yes.
-/

namespace ItemStore

namespace CommandLine

def hexadecimal (bytes : List UInt8) : String :=
  String.ofList (bytes.flatMap fun b =>
    [Json.hexDigit (b.toNat / 16), Json.hexDigit (b.toNat % 16)])

/-- The identity that sixteen random bytes give: five groups of digits, with the marks of version 4
in the third and the fourth. -/
def identity (bytes : List UInt8) : String :=
  let version := (bytes[6]?.getD 0 &&& 0x0f) ||| 0x40
  let variant := (bytes[8]?.getD 0 &&& 0x3f) ||| 0x80
  let marked := (bytes.set 6 version).set 8 variant
  "-".intercalate
    [hexadecimal (marked.take 4), hexadecimal ((marked.drop 4).take 2),
      hexadecimal ((marked.drop 6).take 2), hexadecimal ((marked.drop 8).take 2),
      hexadecimal (marked.drop 10)]

def newStamp : IO Stamp := do
  let bytes ← IO.getRandomBytes 16
  let now ← Std.Time.Timestamp.now
  return ⟨identity bytes.toList, now.toSecondsSinceUnixEpoch.toInt⟩

/-- Answer the commands of the lines of a stream until it ends. -/
partial def serveLines (input : IO.FS.Stream) (s : Store) : IO Unit := do
  let line ← input.getLine
  if line.isEmpty then return
  match Command.ofLine? line.toList with
  | none => serveLines input s
  | some command =>
    let stamp ← newStamp
    let (answer, s) := s.execute stamp command
    (← IO.getStdout).putStrLn answer
    serveLines input s

/-- Run the script in a file, or the one on standard input. -/
def run (arguments : List String) : IO Unit := do
  let region ← IO.getEnv "DEFAULT_REGION"
  let enforceTypes ← IO.getEnv "DYNAMOCK_ENFORCE_KEY_TYPES"
  let s := Store.new (.ofEnvironment region enforceTypes)
  match arguments with
  | path :: _ =>
    let file ← IO.FS.Handle.mk path .read
    serveLines (.ofHandle file) s
  | [] => serveLines (← IO.getStdin) s
  (← IO.getStdout).flush

end CommandLine

end ItemStore

def main (arguments : List String) : IO Unit :=
  ItemStore.CommandLine.run arguments
