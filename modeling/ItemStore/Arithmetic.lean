/-!
# Powers and sums

The powers and sums of the program are those of the core library.  Where a larger library is in
scope, there are further instances for them, equal to these but not the same.  A definition that
takes up the ones below, as local instances, is the same definition whatever is in scope.
-/

namespace ItemStore

/-- Powers of naturals. -/
@[reducible] def natPow : Pow Nat Nat := instPowNat

/-- Powers of integers. -/
@[reducible] def intPow : Pow Int Nat := instPowNat

/-- The sum of nothing. -/
@[reducible] def natZero : Zero Nat := Zero.ofOfNat0

end ItemStore
