import ItemStore.Number.Binary64

/-!
# Shortest decimals

A finite binary64 number is written with the fewest decimal digits that read back as it, and among
those with the ones nearest to its exact value.  On a grid of decimals `digits · 10 ^ exponent`
with the exponent fixed, only the two neighbours of the value can do, so `shortest` tries ever
finer grids and takes the first with a neighbour that reads back.  Of two neighbours that both do,
the nearer wins, and the upper one when they are equally near.

Seventeen digits are always enough.  `shortest` does not rest on that: behind the last grid stands
the exact decimal expansion, which every binary fraction has, and which reads back for certain.

`Binary64.text` writes the digits in positional notation, however large or small the number.
-/

namespace ItemStore

attribute [local instance] natPow

/-- A positive decimal, `digits · 10 ^ exponent`. -/
structure Decimal where
  digits : Nat
  exponent : Int
deriving DecidableEq, Repr

namespace Decimal

/-- The decimal without the zeros that end its digits. -/
def trimmed (d : Decimal) : List Char × Int :=
  let reversed := (Nat.toDigits 10 d.digits).reverse
  let kept := reversed.dropWhile (· == '0')
  (kept.reverse, d.exponent + (reversed.length - kept.length : Nat))

/-- Positional notation: no exponent, and a point only before a fraction. -/
def positional (d : Decimal) : List Char :=
  let (digits, exponent) := d.trimmed
  if 0 ≤ exponent then digits ++ List.replicate exponent.toNat '0'
  else
    let places := (-exponent).toNat
    let padded := List.replicate (places + 1 - digits.length) '0' ++ digits
    padded.take (padded.length - places) ++ '.' :: padded.drop (padded.length - places)

end Decimal

namespace Binary64

/-- Whether a decimal rounds to the magnitude of `rank`. -/
def readsBack (rank : Nat) (d : Decimal) : Bool :=
  rankOfDecimal d.digits d.exponent == rank

/-- The neighbour of a magnitude on the grid of `10 ^ exponent` that stands for it, if one does. -/
def onGrid? (rank : Nat) (exponent : Int) : Option Decimal :=
  let num := numerator rank * 10 ^ (-exponent).toNat
  let den := denominator rank * 10 ^ exponent.toNat
  let below : Decimal := ⟨num / den, exponent⟩
  let above : Decimal := ⟨num / den + 1, exponent⟩
  if readsBack rank below && (2 * (num % den) < den || !readsBack rank above) then some below
  else if readsBack rank above then some above
  else none

/-- The power of ten of the leading digit of a positive magnitude.  No magnitude is below
`10 ^ -340`, so the shifted quotient is positive. -/
def leadingPower (rank : Nat) : Int :=
  let shifted := numerator rank * 10 ^ (340 : Nat) / denominator rank
  ((Nat.toDigits 10 shifted).length : Int) - 341

/-- The exact decimal expansion of a finite magnitude. -/
def expansion (rank : Nat) : Decimal :=
  if 0 ≤ unitExponent rank then ⟨numerator rank, 0⟩
  else ⟨significand rank * 5 ^ (-unitExponent rank).toNat, unitExponent rank⟩

/-- The shortest decimal that reads back as a positive finite magnitude. -/
def shortest (rank : Nat) : Decimal :=
  let leading := leadingPower rank
  let onGrid := (List.range 17).findSome? fun finer => onGrid? rank (leading - (finer : Nat))
  onGrid.getD (expansion rank)

/-- The digits of a magnitude, infinity included. -/
def magnitudeText (rank : Nat) : List Char :=
  if rank = 0 then ['0']
  else if rank = infinityRank then ['i', 'n', 'f']
  else (shortest rank).positional

/-- The text of a number.  Zero keeps its sign. -/
def text : Binary64 → String
  | .nan => "NaN"
  | .signed negative rank =>
    String.ofList (if negative then '-' :: magnitudeText rank else magnitudeText rank)

end Binary64

end ItemStore
