import Mathlib
import ItemStore.Number

/-!
# The order of numbers

A number stands for a point of the rational line with an infinity at either end: an integer for
itself, a finite binary64 number for the dyadic rational it represents.  `Number.compare` works on
representations, with a range test and a cross multiplication where the two numbers are
represented differently.  This file says what it computes.

* `Number.value?` is the point that a number stands for; a NaN stands for none.
* `Binary64.magnitude_strictMono` — the value of a rank grows with the rank, which is what makes
  the order of ranks an order of values.
* **`Number.compare_eq`** — comparing two numbers is comparing their points, exactly.
* `Number.same_iff` — two numbers are the same when they stand for one point.  Sameness is
  therefore symmetric and transitive across representations, and reflexive but for NaN.
-/

namespace ItemStore

/-- The rational line with an infinity at either end. -/
abbrev Extended := WithBot (WithTop ℚ)

namespace Extended

/-- A rational as a point of the extended line. -/
def ofRat (q : ℚ) : Extended := ((q : WithTop ℚ) : WithBot (WithTop ℚ))

lemma ofRat_strictMono : StrictMono ofRat := fun _ _ h =>
  WithBot.coe_lt_coe.mpr (WithTop.coe_lt_coe.mpr h)

lemma ofRat_lt_top (q : ℚ) : ofRat q < ⊤ :=
  WithBot.coe_lt_coe.mpr (WithTop.coe_lt_top q)

lemma bot_lt_ofRat (q : ℚ) : ⊥ < ofRat q :=
  WithBot.bot_lt_coe _

end Extended

/-! ## Magnitudes -/

namespace Binary64

/-- The value of a finite rank. -/
def magnitude (rank : ℕ) : ℚ := numerator rank / denominator rank

lemma denominator_pos (rank : ℕ) : 0 < denominator rank := by
  rw [denominator]; positivity

lemma magnitude_eq (rank : ℕ) :
    magnitude rank = significand rank * (2 : ℚ) ^ unitExponent rank := by
  have hsplit : unitExponent rank
      = ((unitExponent rank).toNat : ℤ) - ((-unitExponent rank).toNat : ℤ) := by omega
  rw [magnitude, numerator, denominator]
  conv_rhs => rw [hsplit, zpow_sub₀ two_ne_zero, zpow_natCast, zpow_natCast, ← mul_div_assoc]
  push_cast
  rfl

@[simp] lemma magnitude_zero : magnitude 0 = 0 := by
  simp [magnitude_eq, significand]

/-- Where the unit stays the same, one rank up is one unit up. -/
lemma magnitude_lt_of_unitExponent_eq {rank : ℕ}
    (hunit : unitExponent (rank + 1) = unitExponent rank)
    (hcount : significand rank < significand (rank + 1)) :
    magnitude rank < magnitude (rank + 1) := by
  rw [magnitude_eq, magnitude_eq, hunit]
  gcongr

/-- Where the unit doubles, the count falls back to half of what would come next. -/
lemma magnitude_lt_of_unitExponent_succ {rank : ℕ}
    (hunit : unitExponent (rank + 1) = unitExponent rank + 1)
    (hcount : significand rank < 2 * significand (rank + 1)) :
    magnitude rank < magnitude (rank + 1) := by
  rw [magnitude_eq, magnitude_eq, hunit, zpow_add_one₀ two_ne_zero, mul_comm _ (2 : ℚ), ← mul_assoc]
  gcongr
  rw [mul_comm]
  exact_mod_cast hcount

lemma magnitude_lt_succ (rank : ℕ) : magnitude rank < magnitude (rank + 1) := by
  by_cases hcarry : 2 ^ 52 ≤ rank ∧ (rank + 1) % 2 ^ 52 = 0
  · obtain ⟨hnormal, hzero⟩ := hcarry
    apply magnitude_lt_of_unitExponent_succ
    · simp only [unitExponent]
      rw [if_neg (by omega), if_neg (by omega)]
      omega
    · simp only [significand]
      rw [if_neg (by omega), if_neg (by omega)]
      omega
  · apply magnitude_lt_of_unitExponent_eq
    · simp only [unitExponent]
      split_ifs <;> omega
    · simp only [significand]
      split_ifs <;> omega

/-- **A higher rank has a greater value.** -/
theorem magnitude_strictMono : StrictMono magnitude :=
  strictMono_nat_of_lt_succ magnitude_lt_succ

/-- The value of a signed rank, infinities apart. -/
def signedMagnitude : ℤ → ℚ
  | .ofNat rank => magnitude rank
  | .negSucc below => -magnitude (below + 1)

lemma signedMagnitude_strictMono : StrictMono signedMagnitude := by
  refine strictMono_int_of_lt_succ fun n => ?_
  match n with
  | .ofNat rank => exact magnitude_lt_succ rank
  | .negSucc 0 =>
      show -magnitude 1 < magnitude 0
      have h := magnitude_lt_succ 0
      simp only [magnitude_zero, zero_add] at h ⊢
      linarith
  | .negSucc (below + 1) =>
      show -magnitude (below + 1 + 1) < -magnitude (below + 1)
      exact neg_lt_neg (magnitude_lt_succ _)

lemma signedMagnitude_signedRank (negative : Bool) (rank : ℕ) :
    signedMagnitude (signedRank negative rank)
      = if negative then -magnitude rank else magnitude rank := by
  cases negative with
  | false => rfl
  | true =>
      cases rank with
      | zero => show magnitude 0 = -magnitude 0; simp
      | succ below => rfl

/-! ## Points of binary64 numbers -/

/-- The point of a signed rank. -/
def rankPoint (n : ℤ) : Extended :=
  if n = infinityRank then ⊤ else if n = -infinityRank then ⊥ else .ofRat (signedMagnitude n)

lemma rankPoint_strictMonoOn :
    StrictMonoOn rankPoint (Set.Icc (-(infinityRank : ℤ)) infinityRank) := by
  intro m hm n hn hlt
  simp only [Set.mem_Icc] at hm hn
  have hm' : m ≠ infinityRank := by omega
  have hn' : n ≠ -infinityRank := by omega
  simp only [rankPoint, if_neg hm', if_neg hn']
  split_ifs
  · exact WithBot.bot_lt_coe _
  · exact Extended.bot_lt_ofRat _
  · exact Extended.ofRat_lt_top _
  · exact Extended.ofRat_strictMono (signedMagnitude_strictMono hlt)

lemma signedRank_mem (negative : Bool) (rank : Fin (infinityRank + 1)) :
    signedRank negative rank ∈ Set.Icc (-(infinityRank : ℤ)) infinityRank := by
  have h := rank.isLt
  simp only [Set.mem_Icc, signedRank]
  split <;> omega

/-- The point that a number stands for. -/
def value? : Binary64 → Option Extended
  | .nan => none
  | .signed negative rank =>
    some <|
      if rank.val = infinityRank then (if negative then ⊥ else ⊤)
      else .ofRat (if negative then -magnitude rank else magnitude rank)

lemma value?_signed (negative : Bool) (rank : Fin (infinityRank + 1)) :
    value? (.signed negative rank) = some (rankPoint (signedRank negative rank)) := by
  have hpos : (0 : ℤ) < infinityRank := by norm_num [infinityRank]
  have hle := rank.isLt
  simp only [value?, rankPoint, signedMagnitude_signedRank]
  congr 1
  cases negative <;> simp only [signedRank, if_true, if_false, Bool.false_eq_true]
  · by_cases h : rank.val = infinityRank
    · simp [h]
    · rw [if_neg h, if_neg (by omega), if_neg (by omega)]
  · by_cases h : rank.val = infinityRank
    · rw [if_pos h, if_neg (by omega), if_pos (by omega)]
    · rw [if_neg h, if_neg (by omega), if_neg (by omega)]

end Binary64

/-! ## Points of numbers -/

namespace Number

/-- The point that a number stands for. -/
def value? : Number → Option Extended
  | .int i => some (.ofRat i)
  | .float f => f.value?

end Number

/-! ## Comparison is comparison of points -/

lemma compare_eq_cmp (a b : ℤ) : Ord.compare a b = cmp a b :=
  (cmp_eq_compare a b).symm

lemma cmp_int_ofRat (a b : ℤ) : cmp a b = cmp (Extended.ofRat a) (Extended.ofRat b) := by
  rw [Extended.ofRat_strictMono.cmp_map_eq, Int.cast_strictMono.cmp_map_eq]

namespace Binary64

theorem compare_eq (a b : Binary64) : a.compare b = Option.map₂ cmp a.value? b.value? := by
  match a, b with
  | .nan, b => simp [Binary64.compare, value?]
  | .signed _ _, .nan => simp [Binary64.compare, value?]
  | .signed s a, .signed t b =>
      rw [value?_signed, value?_signed, Option.map₂_some_some,
        rankPoint_strictMonoOn.cmp_map_eq (signedRank_mem s a) (signedRank_mem t b),
        ← compare_eq_cmp]
      rfl

/-- Clearing the power of two between an integer and a number does not disturb their order. -/
theorem compareInt_eq (i : ℤ) (f : Binary64) :
    f.compareInt i = f.value?.map (cmp (Extended.ofRat i)) := by
  match f with
  | .nan => rfl
  | .signed negative rank =>
      simp only [compareInt, value?, Option.map_some]
      by_cases hinf : rank.val = infinityRank
      · rw [if_pos hinf, if_pos hinf]
        cases negative
        · exact congrArg some (cmp_eq_lt_iff _ _ |>.mpr (Extended.ofRat_lt_top _)).symm
        · exact congrArg some (cmp_eq_gt_iff _ _ |>.mpr (Extended.bot_lt_ofRat _)).symm
      · rw [if_neg hinf, if_neg hinf, compare_eq_cmp]
        have hpos : (0 : ℚ) < denominator rank := by exact_mod_cast denominator_pos rank
        have hvalue : ((if negative then -(numerator rank : ℤ) else numerator rank : ℤ) : ℚ)
            = (if negative then -magnitude rank else magnitude rank) * denominator rank := by
          cases negative <;> simp [magnitude, div_mul_cancel₀ _ hpos.ne']
        rw [Extended.ofRat_strictMono.cmp_map_eq, ← cmp_mul_pos_right hpos, ← hvalue,
          ← Int.cast_strictMono (R := ℚ).cmp_map_eq]
        push_cast
        rfl

end Binary64

namespace Number

/-- **Comparing two numbers is comparing the points they stand for**, with no rounding, whatever
the two representations. -/
theorem compare_eq (a b : Number) : a.compare b = Option.map₂ cmp a.value? b.value? := by
  match a, b with
  | .int a, .int b =>
      simp only [Number.compare, value?, Option.map₂_some_some, ← cmp_int_ofRat, compare_eq_cmp]
  | .int a, .float b =>
      simp only [Number.compare, value?, Binary64.compareInt_eq]
      cases b.value? <;> rfl
  | .float a, .int b =>
      simp only [Number.compare, value?, Binary64.compareInt_eq, Option.map_map]
      cases a.value? <;> simp [Function.comp_def, cmp_swap]
  | .float a, .float b => exact Binary64.compare_eq a b

/-- **Two numbers are the same when they stand for one point.** -/
theorem same_iff {a b : Number} : a.same b = true ↔ ∃ x, a.value? = some x ∧ b.value? = some x := by
  simp only [same, compare_eq, beq_iff_eq, Option.map₂_eq_some_iff, cmp_eq_eq_iff]
  constructor
  · rintro ⟨x, y, hx, hy, rfl⟩
    exact ⟨x, hx, hy⟩
  · rintro ⟨x, hx, hy⟩
    exact ⟨x, x, hx, hy, rfl⟩

theorem same_comm (a b : Number) : a.same b = b.same a := by
  rw [Bool.eq_iff_iff, same_iff, same_iff]
  simp only [and_comm]

theorem same_trans {a b c : Number} (hab : a.same b = true) (hbc : b.same c = true) :
    a.same c = true := by
  obtain ⟨x, ha, hb⟩ := same_iff.mp hab
  obtain ⟨y, hb', hc⟩ := same_iff.mp hbc
  obtain rfl : x = y := Option.some.inj (hb.symm.trans hb')
  exact same_iff.mpr ⟨x, ha, hc⟩

/-- A number is the same as itself unless it is a NaN. -/
theorem same_self_iff {a : Number} : a.same a = true ↔ a.value?.isSome = true := by
  rw [same_iff, Option.isSome_iff_exists]
  simp only [and_self]

/-! ## Numerals read as numbers -/

/-- No numeral reads as a NaN. -/
theorem value?_read_isSome {text : String} (h : isNumeral text = true) :
    (read text).value?.isSome = true := by
  rw [read]
  split
  · rfl
  · obtain ⟨n, hn⟩ := Option.isSome_iff_exists.mp h
    simp only [readFloat, hn]
    rfl

end Number

end ItemStore
