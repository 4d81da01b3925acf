import ItemStore.Number.Shortest

/-!
# Numbers

What the text of a number denotes once it is read: an integer where the text is a plain integer of
64 bits, and the nearest binary64 number otherwise.  The spelling alone picks the representation:
`5` is an integer, `5.0` and `5e0` are not, and still all three compare as the number five.

* `Number.read` is total: a text that is no number reads as NaN.
* `Number.compare` orders numbers of either representation exactly.
* `Number.text` spells a number in its one canonical way.
-/

namespace ItemStore

attribute [local instance] intPow

/-- A number as the store compares it. -/
inductive Number where
  | int (value : Int)
  | float (value : Binary64)
deriving DecidableEq, Repr

namespace Number

/-- The integers of 64 bits. -/
def fitsInt (i : Int) : Bool :=
  -2 ^ (63 : Nat) ≤ i && i < 2 ^ (63 : Nat)

/-- The words for the numbers that have no digits, in any letter case. -/
def readWord (text : List Char) : Binary64 :=
  let (negative, word) := Numeral.splitSign text
  let lower := String.ofList (word.map Char.toLower)
  if lower = "inf" ∨ lower = "infinity" then Binary64.infinite negative else .nan

def readFloat (text : List Char) : Binary64 :=
  match Numeral.read? text with
  | some n => Binary64.ofNumeral n
  | none => readWord text

def read (text : String) : Number :=
  match (Numeral.integer? text.toList).filter fitsInt with
  | some i => .int i
  | none => .float (readFloat text.toList)

/-- The exact order of two numbers, undefined where a NaN is involved. -/
def compare : Number → Number → Option Ordering
  | .int a, .int b => some (Ord.compare a b)
  | .float a, .float b => a.compare b
  | .int a, .float b => b.compareInt a
  | .float a, .int b => (a.compareInt b).map Ordering.swap

/-- Whether two numbers are equal, whatever their representations.  A NaN equals nothing. -/
def same (a b : Number) : Bool :=
  a.compare b == some .eq

def text : Number → String
  | .int i => i.repr
  | .float f => f.text

end Number

end ItemStore
