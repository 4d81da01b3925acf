import ItemStore.Arithmetic
import ItemStore.Number.Numeral

/-!
# Binary64 numbers

The floating-point numbers of 64 bits, held exactly.  A number is a sign and a *rank*, the place
of its magnitude among all magnitudes in increasing order: rank `0` is zero, the ranks below
`2 ^ 52` are the subnormal magnitudes, and `infinityRank` stands for infinity.  The rank is the
number formed by the exponent and fraction bits, so the order of magnitudes is the order of `Nat`
and the next magnitude up has the next rank.

* `significand` and `unitExponent` give the value of a finite rank, which is
  `significand · 2 ^ unitExponent`.
* `rankOfRatio` rounds a ratio of naturals to the nearest rank, ties to the even one.
* `ofNumeral` is the number nearest to an exact decimal.
* `compare` and `compareInt` order two numbers, or an integer and a number, with no rounding.
-/

namespace ItemStore

attribute [local instance] natPow

/-- The rank of infinity: all eleven exponent bits set and no fraction bit. -/
def infinityRank : Nat := 2047 * 2 ^ (52 : Nat)

/-- A floating-point number of 64 bits.  All NaNs are one. -/
inductive Binary64 where
  | nan
  | signed (negative : Bool) (rank : Fin (infinityRank + 1))
deriving DecidableEq, Repr

namespace Binary64

/-! ## The value of a rank -/

/-- How many units a magnitude counts; normal magnitudes have the hidden leading bit. -/
def significand (rank : Nat) : Nat :=
  if rank < 2 ^ (52 : Nat) then rank else 2 ^ (52 : Nat) + rank % 2 ^ (52 : Nat)

/-- The power of two that is the unit of a magnitude.  Subnormal magnitudes share the unit of the
smallest normal ones. -/
def unitExponent (rank : Nat) : Int :=
  if rank < 2 ^ (52 : Nat) then -1074 else (rank / 2 ^ (52 : Nat) : Nat) - 1075

/-- Numerator of the value of a finite rank. -/
def numerator (rank : Nat) : Nat :=
  significand rank * 2 ^ (unitExponent rank).toNat

/-- Denominator of the value of a finite rank, a power of two. -/
def denominator (rank : Nat) : Nat :=
  2 ^ (-unitExponent rank).toNat

/-! ## Rounding -/

/-- The natural number nearest to `num / den`, the even one of two that are equally near. -/
def nearestEven (num den : Nat) : Nat :=
  let below := num / den
  let excess := 2 * (num % den)
  if excess < den then below
  else if den < excess then below + 1
  else below + below % 2

/-- The largest `e` with `2 ^ e ≤ num / den`, for positive `num` and `den`.  The bit lengths leave
two candidates, and one comparison decides between them. -/
def binade (num den : Nat) : Int :=
  let guess : Int := (num.log2 : Int) - den.log2
  if den * 2 ^ guess.toNat ≤ num * 2 ^ (-guess).toNat then guess else guess - 1

/-- The rank nearest to `num / den`.  The unit is the one of the ratio's binade, though never below
the least unit; a ratio that rounds up to the next binade carries into the next rank by itself, and
whatever lies past the last finite rank is infinity. -/
def rankOfRatio (num den : Nat) : Nat :=
  if num = 0 then 0
  else
    let unit := max (binade num den - 52) (-1074)
    let units := nearestEven (num * 2 ^ (-unit).toNat) (den * 2 ^ unit.toNat)
    min infinityRank ((unit + 1074).toNat * 2 ^ (52 : Nat) + units)

/-- The rank nearest to `mantissa · 10 ^ exponent`.  Exponents that settle the outcome whatever the
digits are never turned into a power of ten. -/
def rankOfDecimal (mantissa : Nat) (exponent : Int) : Nat :=
  if mantissa = 0 then 0
  else if 400 < exponent then infinityRank
  else if exponent < -(mantissa.log2 + 400) then 0
  else rankOfRatio (mantissa * 10 ^ exponent.toNat) (10 ^ (-exponent).toNat)

theorem rankOfRatio_le (num den : Nat) : rankOfRatio num den ≤ infinityRank := by
  unfold rankOfRatio
  split
  · exact Nat.zero_le _
  · exact Nat.min_le_left _ _

theorem rankOfDecimal_le (mantissa : Nat) (exponent : Int) :
    rankOfDecimal mantissa exponent ≤ infinityRank := by
  unfold rankOfDecimal
  split
  · exact Nat.zero_le _
  · split
    · exact Nat.le_refl _
    · split
      · exact Nat.zero_le _
      · exact rankOfRatio_le _ _

/-- The number nearest to an exact decimal.  The sign survives rounding to zero. -/
def ofNumeral (n : Numeral) : Binary64 :=
  .signed n.negative
    ⟨rankOfDecimal n.mantissa n.exponent, Nat.lt_succ_of_le (rankOfDecimal_le _ _)⟩

/-- Infinity of either sign. -/
def infinite (negative : Bool) : Binary64 :=
  .signed negative ⟨infinityRank, Nat.lt_succ_self _⟩

/-! ## Order -/

/-- The rank counted downwards from zero for negative numbers; both zeros count `0`. -/
def signedRank (negative : Bool) (rank : Nat) : Int :=
  if negative then -(rank : Int) else rank

/-- The order of two numbers; a NaN is in no order with anything. -/
def compare : Binary64 → Binary64 → Option Ordering
  | .signed s a, .signed t b => some (Ord.compare (signedRank s a) (signedRank t b))
  | _, _ => none

/-- The order of an integer and a number, by clearing the power of two between them. -/
def compareInt (i : Int) : Binary64 → Option Ordering
  | .nan => none
  | .signed negative rank =>
    if rank.val = infinityRank then some (if negative then .gt else .lt)
    else
      let magnitude : Int := numerator rank
      some (Ord.compare (i * denominator rank) (if negative then -magnitude else magnitude))

/-- The 64 bits of a number: sign, exponent, fraction. -/
def toBits : Binary64 → Nat
  | .nan => infinityRank + 2 ^ (51 : Nat)
  | .signed negative rank => (if negative then 2 ^ (63 : Nat) else 0) + rank

end Binary64

end ItemStore
