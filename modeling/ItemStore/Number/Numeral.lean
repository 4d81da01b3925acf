/-!
# Numerals

The text of a number as a client writes it: an optional sign, decimal digits with at most one
point among them, and an optional power of ten.  `5`, `-5.0`, `.5`, `5.` and `+5e-3` are
numerals; a lone point, a lone sign and an exponent without digits are not.

* `Numeral` is what such a text denotes, an exact decimal.
* `Numeral.read?` reads the whole text or nothing.
* `Numeral.integer?` reads the plainer texts that are a sign and digits only.

Only the ASCII digits count as digits, so a text with any other character is no numeral.
-/

namespace ItemStore

/-- An exact decimal, `mantissa · 10 ^ exponent`, negated when `negative` is set.  The sign is kept
apart from the mantissa because `-0` and `0` are two numerals. -/
structure Numeral where
  negative : Bool
  mantissa : Nat
  exponent : Int
deriving DecidableEq, Repr

namespace Numeral

/-- Split off a leading sign; no sign means a positive number. -/
def splitSign : List Char → Bool × List Char
  | '-' :: rest => (true, rest)
  | '+' :: rest => (false, rest)
  | rest => (false, rest)

/-- A run of one or more decimal digits, as a natural number. -/
def natural? (digits : List Char) : Option Nat :=
  if digits.isEmpty then none
  else if digits.all Char.isDigit then some (Nat.ofDigitChars 10 digits 0)
  else none

def integer? (text : List Char) : Option Int :=
  let (negative, digits) := splitSign text
  (natural? digits).map fun n => if negative then -(n : Int) else n

/-- Split off a point and the digits after it.  A point with no digits is an empty fraction. -/
def splitFraction : List Char → List Char × List Char
  | '.' :: rest => (rest.takeWhile Char.isDigit, rest.dropWhile Char.isDigit)
  | rest => ([], rest)

/-- The power of ten that ends a numeral: nothing at all, or `e` and an integer. -/
def exponent? : List Char → Option Int
  | [] => some 0
  | mark :: power => if mark = 'e' ∨ mark = 'E' then integer? power else none

/-- Read a whole text as a numeral.  At least one digit stands before the exponent, on either side
of the point. -/
def read? (text : List Char) : Option Numeral :=
  let (negative, body) := splitSign text
  let whole := body.takeWhile Char.isDigit
  let (fraction, tail) := splitFraction (body.dropWhile Char.isDigit)
  if whole.isEmpty && fraction.isEmpty then none
  else
    (exponent? tail).map fun power =>
      { negative
        mantissa := Nat.ofDigitChars 10 (whole ++ fraction) 0
        exponent := power - fraction.length }

/-! ## Signs and digits -/

/-- The signs of a number. -/
def signs : List (List Char) :=
  [[], ['-'], ['+']]

theorem exists_sign (text : List Char) : ∃ sign ∈ signs, text = sign ++ (splitSign text).2 := by
  unfold splitSign
  split
  · exact ⟨['-'], by simp [signs], rfl⟩
  · exact ⟨['+'], by simp [signs], rfl⟩
  · exact ⟨[], by simp [signs], rfl⟩

/-- An integer is digits behind a sign. -/
theorem digits_of_integer? {text : List Char} (h : (integer? text).isSome) :
    ∃ sign ∈ signs, ∃ digits, text = sign ++ digits ∧ digits ≠ [] ∧
      ∀ d ∈ digits, d.isDigit = true := by
  obtain ⟨sign, hsign, htext⟩ := exists_sign text
  refine ⟨sign, hsign, _, htext, ?_⟩
  rw [integer?, Option.isSome_map, natural?] at h
  split at h
  · cases h
  · rename_i hempty
    split at h
    · rename_i hdigits
      exact ⟨by simpa using hempty, List.all_eq_true.mp hdigits⟩
    · cases h

end Numeral

/-- Whether a text may stand as the number in a value. -/
def isNumeral (text : String) : Bool :=
  (Numeral.read? text.toList).isSome

end ItemStore
