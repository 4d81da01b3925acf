import ItemStore.Proofs.Spelling

/-!
# Numbers with the texts of integers

`5.0` is written `5`.  A number has the text of an integer exactly when its shortest decimal is
one, and then the text is the plain one of that integer: no zeros in front, and all the zeros
behind.  An integral number has such a text, if not always that of the integer that it is.

* **`Decimal.positional_eq_of_value_eq`** — positional notation depends on the value alone.
* `Decimal.positional_of_value_eq_natCast` — a natural is written as naturals are.
* **`Binary64.exists_shortest_eq_natCast`** — the shortest decimal of an integral magnitude is a
  natural.  Below `2 ^ 53` it is the magnitude (`Binary64.shortest_exact`).
* **`Binary64.text_eq_repr_of_integer?`** — a text that is read as an integer is the one that the
  integer has, but for the negative zero.
* **`Binary64.text_eq_repr_iff`** — an integral number has the text of its integer exactly if its
  shortest decimal is exact.
-/

namespace ItemStore

/-! ## Positional notation -/

/-- Each power of ten puts a zero behind the digits. -/
lemma toDigits_mul_ten_pow {n : ℕ} (hn : 0 < n) (k : ℕ) :
    Nat.toDigits 10 (n * 10 ^ k) = Nat.toDigits 10 n ++ List.replicate k '0' := by
  induction k with
  | zero => rw [pow_zero, mul_one, List.replicate_zero, List.append_nil]
  | succ k ih =>
      have hscaled : 0 < n * 10 ^ k := by positivity
      have hzero : n * 10 ^ (k + 1) = 10 * (n * 10 ^ k) + 0 := by ring
      rw [hzero, ← Nat.toDigits_append_toDigits (by norm_num) hscaled (by norm_num), ih,
        List.append_assoc, List.replicate_succ']
      rfl

lemma lt_length_toDigits {n k : ℕ} (hk : 0 < k) (h : 10 ^ k ≤ n) :
    k < (Nat.toDigits 10 n).length := by
  rw [← not_le, Nat.length_toDigits_le_iff (by norm_num) hk, not_lt]
  exact h

namespace Decimal

variable {d : Decimal} {n : ℕ}

/-- A power of ten moved from the digits to the exponent is trimmed off anyway. -/
lemma trimmed_mul_ten_pow (hn : 0 < n) (k : ℕ) (exponent : ℤ) :
    trimmed ⟨n * 10 ^ k, exponent⟩ = trimmed ⟨n, exponent + k⟩ := by
  have hdrop : ∀ rest : List Char, (List.replicate k '0' ++ rest).dropWhile (· == '0')
      = rest.dropWhile (· == '0') := fun rest =>
    List.dropWhile_append_of_pos fun c hc => beq_iff_eq.mpr (List.eq_of_mem_replicate hc)
  have hle : ((Nat.toDigits 10 n).reverse.dropWhile (· == '0')).length
      ≤ (Nat.toDigits 10 n).reverse.length := (List.dropWhile_sublist _).length_le
  simp only [trimmed, toDigits_mul_ten_pow hn, List.reverse_append, List.reverse_replicate, hdrop,
    List.length_append, List.length_replicate, Prod.mk.injEq, true_and]
  omega

/-- **Positional notation depends on the value alone**, however it is split into digits and an
exponent. -/
theorem positional_eq_of_value_eq {d' : Decimal} (hd : 0 < d.digits) (hd' : 0 < d'.digits)
    (h : d.value = d'.value) : d.positional = d'.positional := by
  wlog hle : d.exponent ≤ d'.exponent generalizing d d'
  · exact (this hd' hd h.symm (by omega)).symm
  obtain ⟨digits, exponent⟩ := d
  obtain ⟨digits', exponent'⟩ := d'
  obtain ⟨k, rfl⟩ := Int.le.dest hle
  have hdigits : digits = digits' * 10 ^ k := by
    have hscaled : (digits : ℚ) * 10 ^ exponent = digits' * 10 ^ k * 10 ^ exponent := by
      rw [mul_assoc, mul_comm ((10 : ℚ) ^ k), ← zpow_natCast, ← zpow_add₀ (by norm_num)]
      exact h
    exact_mod_cast mul_right_cancel₀ (by positivity) hscaled
  rw [positional, positional, hdigits, trimmed_mul_ten_pow hd']

/-- A natural has no point and no zeros in front. -/
lemma positional_natural (n : ℕ) : positional ⟨n, 0⟩ = Nat.toDigits 10 n := by
  obtain ⟨zeros, hdigits, hexponent⟩ := exists_trimmed_zeros ⟨n, 0⟩
  rw [positional, hdigits]
  simp only [hexponent, zero_add, Int.natCast_nonneg, if_true, Int.toNat_natCast]

/-- A decimal with a natural value has the text of the natural. -/
theorem positional_of_value_eq_natCast (hn : 0 < n) (h : d.value = n) :
    d.positional = Nat.toDigits 10 n := by
  have hd : 0 < d.digits := by
    rw [Nat.pos_iff_ne_zero]
    intro hzero
    rw [value, hzero, Nat.cast_zero, zero_mul, eq_comm, Nat.cast_eq_zero] at h
    exact hn.ne' h
  have hvalue : d.value = value ⟨n, 0⟩ := by rw [h, value, zpow_zero, mul_one]
  rw [← positional_natural]
  exact positional_eq_of_value_eq hd hn hvalue

end Decimal

/-! ## Integral magnitudes -/

namespace Binary64

variable {rank : ℕ} {n : ℕ}

lemma numerator_eq_of_magnitude_eq (h : magnitude rank = n) :
    numerator rank = n * denominator rank := by
  have hden : (denominator rank : ℚ) ≠ 0 := by exact_mod_cast (denominator_pos rank).ne'
  rw [magnitude, div_eq_iff hden] at h
  exact_mod_cast h

lemma natCast_pos_of_magnitude_eq (hzero : rank ≠ 0) (h : magnitude rank = n) : 0 < n := by
  have hpos := magnitude_strictMono (Nat.pos_of_ne_zero hzero)
  rw [magnitude_zero, h] at hpos
  exact_mod_cast hpos

/-- A magnitude of one and more has its leading digit before the point. -/
lemma leadingPower_nonneg (h : denominator rank ≤ numerator rank) : 0 ≤ leadingPower rank := by
  rw [leadingPower]
  generalize hk : (340 : ℕ) = k
  have hshifted : 10 ^ k ≤ numerator rank * 10 ^ k / denominator rank := by
    rw [Nat.le_div_iff_mul_le (denominator_pos rank), mul_comm]
    exact Nat.mul_le_mul_right _ h
  have hlength := lt_length_toDigits (by omega) hshifted
  omega

/-- The naturals are the grid that an integral magnitude is on. -/
lemma onGrid?_zero (hrank : rank < infinityRank) (h : magnitude rank = n) :
    onGrid? rank 0 = some ⟨n, 0⟩ := by
  have hreads : readsBack rank ⟨n, 0⟩ = true := by
    rw [readsBack_iff, Decimal.value, zpow_zero, mul_one, ← h, rankOf_magnitude hrank.le]
  have hden := denominator_pos rank
  have hdiv : n * denominator rank / denominator rank = n := Nat.mul_div_cancel _ hden
  have hmod : n * denominator rank % denominator rank = 0 := Nat.mul_mod_left _ _
  simp only [onGrid?, numerator_eq_of_magnitude_eq h, neg_zero, Int.toNat_zero, pow_zero, mul_one,
    hdiv, hmod, hreads]
  simp [hden]

lemma exponent_of_onGrid? {exponent : ℤ} {d : Decimal} (h : onGrid? rank exponent = some d) :
    d.exponent = exponent := by
  unfold onGrid? at h
  dsimp only at h
  split_ifs at h <;> cases h <;> rfl

/-- Counting up to a number passes the smaller ones. -/
lemma mem_before_of_range_eq {before after : List ℕ} {k i x : ℕ}
    (h : List.range k = before ++ i :: after) (hx : x < i) : x ∈ before := by
  have hmem : x ∈ before ++ i :: after := by
    have hi : i ∈ List.range k := h ▸ List.mem_append_right _ List.mem_cons_self
    rw [← h, List.mem_range]
    exact hx.trans (List.mem_range.mp hi)
  have hsorted : (before ++ i :: after).Pairwise (· < ·) := h ▸ List.pairwise_lt_range
  have hafter := (List.pairwise_cons.mp (List.pairwise_append.mp hsorted).2.1).1
  rcases List.mem_append.mp hmem with hbefore | hrest
  · exact hbefore
  · rcases List.mem_cons.mp hrest with rfl | hrest
    · exact absurd hx (lt_irrefl _)
    · exact absurd hx (hafter x hrest).asymm

lemma shortest_value_pos (hzero : rank ≠ 0) (hrank : rank < infinityRank) :
    0 < (shortest rank).value := by
  have hdigits := shortest_digits_pos hzero hrank
  rw [Decimal.value]
  positivity

/-- **The shortest decimal of an integral magnitude is a natural**, if not always the magnitude.
The grids from the leading digit down to the naturals hold nothing but naturals, and on the last of
them the magnitude itself is found. -/
theorem exists_shortest_eq_natCast (hrank : rank < infinityRank) (hn : 0 < n)
    (h : magnitude rank = n) : ∃ m : ℕ, (shortest rank).value = m := by
  have hleading : 0 ≤ leadingPower rank := by
    refine leadingPower_nonneg ?_
    rw [numerator_eq_of_magnitude_eq h]
    exact Nat.le_mul_of_pos_left _ hn
  rw [shortest]
  cases hgrid : (List.range 17).findSome?
      fun finer => onGrid? rank (leadingPower rank - (finer : ℕ)) with
  | none => exact ⟨n, by rw [Option.getD_none, value_expansion, h]⟩
  | some d =>
      obtain ⟨before, finer, after, hrange, hd, hnone⟩ := List.findSome?_eq_some_iff.mp hgrid
      have hexponent := exponent_of_onGrid? hd
      -- a grid finer than the naturals would come after theirs, which does not fail
      have hnatural : 0 ≤ leadingPower rank - finer := by
        by_contra hfine
        have htried := hnone (leadingPower rank).toNat
          (mem_before_of_range_eq hrange (by omega))
        rw [Int.toNat_of_nonneg hleading, sub_self, onGrid?_zero hrank h] at htried
        cases htried
      obtain ⟨k, hk⟩ := Int.eq_ofNat_of_zero_le hnatural
      refine ⟨d.digits * 10 ^ k, ?_⟩
      rw [Option.getD_some, Decimal.value, hexponent, hk]
      push_cast
      rw [zpow_natCast]

/-- Below `2 ^ 53` the shortest decimal of an integral magnitude is exact, because no other natural
is rounded to the magnitude. -/
theorem shortest_exact (hzero : rank ≠ 0) (hsmall : n < 2 ^ 53) (hrank : rank < infinityRank)
    (h : magnitude rank = n) : (shortest rank).value = magnitude rank := by
  obtain ⟨m, hm⟩ := exists_shortest_eq_natCast hrank (natCast_pos_of_magnitude_eq hzero h) h
  have hround := rankOf_shortest hrank
  rw [hm] at hround
  have hlt : magnitude (rankOf m) < 2 ^ 53 := by
    rw [hround, h]
    exact_mod_cast hsmall
  rw [hm, ← hround, magnitude_eq_of_rankOf hlt]

/-! ## Texts of integers -/

lemma toList_repr_signed (negative : Bool) (hn : 0 < n) :
    (if negative then -(n : ℤ) else n).repr.toList = withSign negative (Nat.toDigits 10 n) := by
  rw [Int.repr_eq_if]
  cases negative with
  | false => simp [withSign]
  | true => simp [withSign, hn.ne']

variable {negative : Bool} {place : Fin (infinityRank + 1)}

/-- A natural as the shortest decimal is what is written, behind the sign. -/
lemma text_of_shortest_eq_natCast (hzero : place.val ≠ 0) (hfinite : place.val < infinityRank)
    (hn : 0 < n) (h : (shortest place).value = n) :
    text (.signed negative place) = (if negative then -(n : ℤ) else n).repr := by
  rw [← String.toList_inj, toList_text, toList_repr_signed negative hn, magnitudeText,
    if_neg hzero, if_neg hfinite.ne, Decimal.positional_of_value_eq_natCast hn h]

/-- An integer that is read from the text of a number is its shortest decimal, behind the sign. -/
lemma exists_shortest_of_integer? {i : ℤ} (hzero : place.val ≠ 0)
    (hfinite : place.val < infinityRank)
    (h : Numeral.integer? (text (.signed negative place)).toList = some i) :
    ∃ n : ℕ, 0 < n ∧ (shortest place).value = n ∧ i = if negative then -(n : ℤ) else n := by
  have hdigits := shortest_digits_pos hzero hfinite
  have hpos := shortest_value_pos hzero hfinite
  rw [toList_text, magnitudeText, if_neg hzero, if_neg hfinite.ne] at h
  have hvalue := (Decimal.spells_positional hdigits).integer?_withSign h
  have habs : (shortest place).value = i.natAbs := by
    rw [Nat.cast_natAbs, Int.cast_abs, hvalue]
    cases negative <;> simp [abs_of_pos hpos]
  rw [habs] at hpos hvalue
  refine ⟨i.natAbs, by exact_mod_cast hpos, habs, Int.cast_injective (α := ℚ) (hvalue.trans ?_)⟩
  cases negative <;> simp

/-- The zero with a sign. -/
def negativeZero : Binary64 := .signed true 0

/-- **A text that is read as an integer is the one that the integer has**, but for the negative
zero. -/
theorem text_eq_repr_of_integer? {f : Binary64} {i : ℤ} (hf : f ≠ negativeZero)
    (h : Numeral.integer? f.text.toList = some i) : f.text = i.repr := by
  match f with
  | .nan => cases h
  | .signed negative place =>
      by_cases hzero : place = 0
      · subst hzero
        cases negative with
        | true => exact absurd rfl hf
        | false =>
            cases h
            rfl
      · rcases (Nat.lt_succ_iff.mp place.isLt).lt_or_eq with hfinite | hinf
        · have hzero' : place.val ≠ 0 := fun h0 => hzero (Fin.ext h0)
          obtain ⟨n, hn, hshortest, rfl⟩ := exists_shortest_of_integer? hzero' hfinite h
          exact text_of_shortest_eq_natCast hzero' hfinite hn hshortest
        · obtain rfl : place = ⟨infinityRank, Nat.lt_succ_self _⟩ := Fin.ext hinf
          cases negative <;> cases h

/-- The shortest decimal of a number is the number. -/
def SpelledExactly : Binary64 → Prop
  | .nan => False
  | .signed _ rank => (shortest rank).value = magnitude rank

/-- **An integral number has the text of the integer exactly if its shortest decimal is exact.** -/
theorem text_eq_repr_iff (hzero : place.val ≠ 0) (hfinite : place.val < infinityRank) {n : ℕ}
    (h : magnitude place = n) :
    text (.signed negative place) = (if negative then -(n : ℤ) else n).repr ↔
      (shortest place).value = magnitude place := by
  constructor
  · intro htext
    have hinteger := Numeral.integer?_repr (if negative then -(n : ℤ) else n)
    rw [← htext] at hinteger
    obtain ⟨m, _, hshortest, hm⟩ := exists_shortest_of_integer? hzero hfinite hinteger
    rw [hshortest, h]
    cases negative <;> simp at hm <;> simp [hm]
  · intro hexact
    exact text_of_shortest_eq_natCast hzero hfinite (natCast_pos_of_magnitude_eq hzero h)
      (hexact.trans h)

end Binary64

end ItemStore
