import ItemStore.Proofs.Rounding

/-!
# Spelling numbers

A binary64 number is written in positional notation with as few digits as will do.  The text is a
numeral, and it reads back as the number it was written for.

* `Spells` — a text of digits, with at most one point among them, stands for a rational.
  `Spells.read?_withSign` and `Spells.integer?_withSign` say what is read from it behind a sign.
* `Decimal.spells_positional` — positional notation spells the decimal.
* `Binary64.rankOf_shortest` — the shortest decimal of a magnitude is rounded to it.
* **`Number.readFloat_text`** — the text of a binary64 number reads back as the number.
* **`Number.read_text_float`** — where the text is a plain integer, it is one that is rounded to the
  number.
-/

namespace ItemStore

/-! ## Texts of digits -/

/-- A text with a sign in front if the number is negative. -/
def withSign (negative : Bool) (text : List Char) : List Char :=
  if negative then '-' :: text else text

/-- A text is digits, with at most one point behind one or more of them, and stands for a
rational. -/
inductive Spells : List Char → ℚ → Prop
  | whole {digits : List Char} (hne : digits ≠ []) (hdigits : ∀ c ∈ digits, c.isDigit = true) :
      Spells digits (Nat.ofDigitChars 10 digits 0)
  | point {whole fraction : List Char} (hne : whole ≠ [])
      (hdigits : ∀ c ∈ whole ++ fraction, c.isDigit = true) :
      Spells (whole ++ '.' :: fraction)
        (Nat.ofDigitChars 10 (whole ++ fraction) 0 * 10 ^ (-fraction.length : ℤ))

namespace Numeral

lemma splitSign_withSign (negative : Bool) {digits r : List Char} (hne : digits ≠ [])
    (hdigits : ∀ c ∈ digits, c.isDigit = true) :
    splitSign (withSign negative (digits ++ r)) = (negative, digits ++ r) := by
  cases negative with
  | true => rfl
  | false =>
      obtain ⟨c, tail, rfl⟩ := List.exists_cons_of_ne_nil hne
      have hc := hdigits c List.mem_cons_self
      show splitSign (c :: (tail ++ r)) = _
      unfold splitSign
      split
      · rename_i heq
        cases heq
        cases hc
      · rename_i heq
        cases heq
        cases hc
      · rfl

lemma splitSign_digits (negative : Bool) {digits : List Char} (hne : digits ≠ [])
    (hdigits : ∀ c ∈ digits, c.isDigit = true) :
    splitSign (withSign negative digits) = (negative, digits) := by
  have h := splitSign_withSign negative (r := []) hne hdigits
  rwa [List.append_nil] at h

lemma natural?_digits {digits : List Char} (hne : digits ≠ [])
    (hdigits : ∀ c ∈ digits, c.isDigit = true) :
    natural? digits = some (Nat.ofDigitChars 10 digits 0) := by
  rw [natural?, if_neg (by simpa using hne), if_pos (List.all_eq_true.mpr hdigits)]

lemma integer?_digits (negative : Bool) {digits : List Char} (hne : digits ≠ [])
    (hdigits : ∀ c ∈ digits, c.isDigit = true) :
    integer? (withSign negative digits)
      = some (if negative then -(Nat.ofDigitChars 10 digits 0 : ℤ)
          else Nat.ofDigitChars 10 digits 0) := by
  rw [integer?, splitSign_digits negative hne hdigits]
  simp only [natural?_digits hne hdigits]
  rfl

/-- What is written for an integer is read as the integer. -/
lemma integer?_repr (i : ℤ) : integer? i.repr.toList = some i := by
  have hdigits : ∀ n : ℕ, ∀ c ∈ Nat.toDigits 10 n, c.isDigit = true := fun n c hc =>
    Nat.isDigit_of_mem_toDigits (by norm_num) le_rfl hc
  rw [Int.repr_eq_if]
  split_ifs with hi
  · have hread := integer?_digits false Nat.toDigits_ne_nil (hdigits i.toNat)
    rw [Nat.ofDigitChars_ten_toDigits] at hread
    rw [Nat.toList_repr]
    exact hread.trans (congrArg some (Int.toNat_of_nonneg hi))
  · have hread := integer?_digits true Nat.toDigits_ne_nil (hdigits (-i).toNat)
    rw [Nat.ofDigitChars_ten_toDigits] at hread
    rw [String.toList_append, Nat.toList_repr]
    refine hread.trans (congrArg some ?_)
    rw [if_pos rfl]
    omega

/-- No integer has a point in it. -/
lemma integer?_point (negative : Bool) {whole : List Char} (hne : whole ≠ [])
    (hwhole : ∀ c ∈ whole, c.isDigit = true) (fraction : List Char) :
    integer? (withSign negative (whole ++ '.' :: fraction)) = none := by
  rw [integer?, splitSign_withSign negative hne hwhole]
  simp [natural?]

/-- Digits behind a sign are a numeral without a fraction or an exponent. -/
lemma read?_digits {text digits : List Char} {negative : Bool}
    (hsplit : splitSign text = (negative, digits)) (hne : digits ≠ [])
    (hdigits : ∀ c ∈ digits, c.isDigit = true) :
    read? text = some ⟨negative, Nat.ofDigitChars 10 digits 0, 0⟩ := by
  rw [read?, hsplit]
  simp only [List.takeWhile_eq_self_iff.mpr hdigits, List.dropWhile_eq_nil_iff.mpr hdigits]
  simp [splitFraction, exponent?, hne]

end Numeral

namespace Spells

open Numeral

variable {text : List Char} {q : ℚ}

/-- **A text that spells a rational is a numeral of its value**, with either sign. -/
theorem read?_withSign (h : Spells text q) (negative : Bool) :
    ∃ n, Numeral.read? (withSign negative text) = some n ∧ n.negative = negative ∧ n.size = q := by
  cases h with
  | whole hne hdigits =>
      exact ⟨⟨negative, Nat.ofDigitChars 10 text 0, 0⟩,
        read?_digits (splitSign_digits negative hne hdigits) hne hdigits, rfl, by simp [size]⟩
  | @point whole fraction hne hdigits =>
      obtain ⟨hwhole, hfraction⟩ := List.forall_mem_append.mp hdigits
      have htake : (whole ++ '.' :: fraction).takeWhile Char.isDigit = whole := by
        rw [List.takeWhile_append_of_pos hwhole, List.takeWhile_cons_of_neg (by decide),
          List.append_nil]
      have hdrop : (whole ++ '.' :: fraction).dropWhile Char.isDigit = '.' :: fraction := by
        rw [List.dropWhile_append_of_pos hwhole, List.dropWhile_cons_of_neg (by decide)]
      refine ⟨⟨negative, Nat.ofDigitChars 10 (whole ++ fraction) 0, -fraction.length⟩, ?_, rfl, rfl⟩
      rw [read?, splitSign_withSign negative hne hwhole]
      simp only [htake, hdrop, splitFraction, List.takeWhile_eq_self_iff.mpr hfraction,
        List.dropWhile_eq_nil_iff.mpr hfraction]
      simp [exponent?, hne]

/-- An integer that is read from a text is what the text spells. -/
theorem integer?_withSign (h : Spells text q) {negative : Bool} {i : ℤ}
    (hi : Numeral.integer? (withSign negative text) = some i) :
    (i : ℚ) = if negative then -q else q := by
  cases h with
  | whole hne hdigits =>
      rw [integer?_digits negative hne hdigits] at hi
      obtain rfl := Option.some.inj hi
      cases negative <;> simp
  | @point whole fraction hne hdigits =>
      rw [integer?_point negative hne (List.forall_mem_append.mp hdigits).1] at hi
      cases hi

lemma isDigit_of_mem_replicate {k : ℕ} : ∀ c ∈ List.replicate k '0', c.isDigit = true := fun _ hc =>
  List.eq_of_mem_replicate hc ▸ rfl

section

variable {digits : List Char} (hdigits : ∀ c ∈ digits, c.isDigit = true)

include hdigits

/-- Zeros behind digits stand for a power of ten. -/
lemma append_zeros (hpos : 0 < Nat.ofDigitChars 10 digits 0) (k : ℕ) :
    Spells (digits ++ List.replicate k '0') (Nat.ofDigitChars 10 digits 0 * 10 ^ k) := by
  have hne : digits ++ List.replicate k '0' ≠ [] := by
    rintro hnil
    rw [(List.append_eq_nil_iff.mp hnil).1, Nat.ofDigitChars_nil] at hpos
    exact hpos.false
  have h := whole hne (List.forall_mem_append.mpr ⟨hdigits, isDigit_of_mem_replicate⟩)
  rw [Nat.ofDigitChars_append, Nat.ofDigitChars_replicate_zero, Nat.cast_mul, mul_comm] at h
  exact_mod_cast h

/-- Digits with a point before the last of them, behind enough zeros to leave one before the
point. -/
lemma split_padded (places : ℕ) {padded : List Char}
    (hpadded : padded = List.replicate (places + 1 - digits.length) '0' ++ digits) :
    Spells (padded.take (padded.length - places) ++ '.' :: padded.drop (padded.length - places))
      (Nat.ofDigitChars 10 digits 0 * 10 ^ (-places : ℤ)) := by
  have hlength : places < padded.length := by
    rw [hpadded, List.length_append, List.length_replicate]
    omega
  have hall : ∀ c ∈ padded.take (padded.length - places) ++ padded.drop (padded.length - places),
      c.isDigit = true := by
    rw [List.take_append_drop, hpadded]
    exact List.forall_mem_append.mpr ⟨isDigit_of_mem_replicate, hdigits⟩
  have hne : padded.take (padded.length - places) ≠ [] := by
    rw [ne_eq, List.take_eq_nil_iff, not_or]
    exact ⟨by omega, fun hnil => by simp [hnil] at hlength⟩
  have hfraction : (padded.drop (padded.length - places)).length = places := by
    rw [List.length_drop]
    omega
  have hvalue : Nat.ofDigitChars 10 padded 0 = Nat.ofDigitChars 10 digits 0 := by
    rw [hpadded, Nat.ofDigitChars_append, Nat.ofDigitChars_replicate_zero, mul_zero]
  have h := point hne hall
  rwa [List.take_append_drop, hfraction, hvalue] at h

end

end Spells

/-! ## Decimals -/

namespace Decimal

/-- The value of a decimal. -/
def value (d : Decimal) : ℚ := d.digits * 10 ^ d.exponent

/-- The zeros that end the digits are left out and counted in the exponent. -/
lemma exists_trimmed_zeros (d : Decimal) : ∃ zeros : ℕ,
    Nat.toDigits 10 d.digits = d.trimmed.1 ++ List.replicate zeros '0' ∧
      d.trimmed.2 = d.exponent + zeros := by
  set all := Nat.toDigits 10 d.digits with hall
  set kept := all.reverse.dropWhile (· == '0') with hkept
  set zeros := all.reverse.takeWhile (· == '0') with hzeros
  have hsplit : all = kept.reverse ++ zeros.reverse := by
    rw [← List.reverse_append, hzeros, hkept, List.takeWhile_append_dropWhile, List.reverse_reverse]
  have hlength : all.reverse.length - kept.length = zeros.length := by
    rw [hsplit]
    simp
  have hreplicate : zeros.reverse = List.replicate zeros.length '0' := by
    rw [List.eq_replicate_iff]
    refine ⟨List.length_reverse, fun c hc => ?_⟩
    simpa using List.mem_takeWhile_imp (List.mem_reverse.mp hc)
  refine ⟨zeros.length, ?_, by rw [← hlength]; rfl⟩
  rw [← hreplicate]
  exact hsplit

/-- Leaving out the zeros that end the digits does not change the value. -/
lemma trimmed_spec (d : Decimal) :
    (∀ c ∈ d.trimmed.1, c.isDigit = true) ∧
      (Nat.ofDigitChars 10 d.trimmed.1 0 : ℚ) * 10 ^ d.trimmed.2 = d.value := by
  obtain ⟨zeros, hsplit, hexponent⟩ := d.exists_trimmed_zeros
  have hdigits : d.digits = 10 ^ zeros * Nat.ofDigitChars 10 d.trimmed.1 0 := by
    have h : Nat.ofDigitChars 10 (Nat.toDigits 10 d.digits) 0 = d.digits :=
      Nat.ofDigitChars_ten_toDigits
    rw [← h, hsplit, Nat.ofDigitChars_append, Nat.ofDigitChars_replicate_zero]
  refine ⟨fun c hc => ?_, ?_⟩
  · have hmem : c ∈ Nat.toDigits 10 d.digits := hsplit ▸ List.mem_append_left _ hc
    exact Nat.isDigit_of_mem_toDigits (by norm_num) le_rfl hmem
  · rw [value, hdigits, hexponent, zpow_add₀ (by norm_num), zpow_natCast]
    push_cast
    ring

/-- **Positional notation spells the decimal.** -/
theorem spells_positional {d : Decimal} (hd : 0 < d.digits) : Spells d.positional d.value := by
  obtain ⟨hdigits, hvalue⟩ := d.trimmed_spec
  have hpos : 0 < d.value := by
    rw [value]
    positivity
  rw [positional]
  generalize d.trimmed = t at hdigits hvalue ⊢
  obtain ⟨digits, exponent⟩ := t
  dsimp only at hdigits hvalue ⊢
  rw [← hvalue] at hpos ⊢
  split
  · rename_i hexponent
    obtain ⟨k, rfl⟩ := Int.eq_ofNat_of_zero_le hexponent
    have hnum : 0 < Nat.ofDigitChars 10 digits 0 := by
      exact_mod_cast pos_of_mul_pos_left hpos (by positivity)
    exact_mod_cast Spells.append_zeros hdigits hnum k
  · rename_i hexponent
    have hplaces : exponent = -((-exponent).toNat : ℤ) := by omega
    have h := Spells.split_padded hdigits (-exponent).toNat rfl
    rwa [← hplaces] at h

end Decimal

/-! ## Shortest decimals -/

namespace Binary64

variable {rank : ℕ}

lemma readsBack_iff {d : Decimal} : readsBack rank d = true ↔ rankOf d.value = rank := by
  rw [readsBack, beq_iff_eq, rankOfDecimal_eq, Decimal.value]

lemma rankOf_of_onGrid? {exponent : ℤ} {d : Decimal} (h : onGrid? rank exponent = some d) :
    rankOf d.value = rank := by
  unfold onGrid? at h
  dsimp only at h
  split_ifs at h with hbelow habove
  · cases h
    exact readsBack_iff.mp (Bool.and_eq_true _ _ ▸ hbelow).1
  · cases h
    exact readsBack_iff.mp habove

/-- The expansion of a magnitude is exact. -/
lemma value_expansion (rank : ℕ) : (expansion rank).value = magnitude rank := by
  rw [magnitude_eq, expansion]
  split_ifs with h
  · obtain ⟨k, hk⟩ := Int.eq_ofNat_of_zero_le h
    rw [Decimal.value, numerator, hk]
    simp
  · obtain ⟨k, hk⟩ : ∃ k : ℕ, unitExponent rank = -k := ⟨(-unitExponent rank).toNat, by omega⟩
    have hpower : (10 : ℚ) ^ k = 5 ^ k * 2 ^ k := by rw [← mul_pow]; norm_num
    simp only [Decimal.value, hk, neg_neg, Int.toNat_natCast, zpow_neg, zpow_natCast, hpower]
    push_cast
    field_simp

/-- **The shortest decimal of a magnitude is rounded to it.**  On a grid this has been tried; behind
the last grid the decimal is the magnitude. -/
theorem rankOf_shortest (hrank : rank < infinityRank) : rankOf (shortest rank).value = rank := by
  rw [shortest]
  cases hgrid : (List.range 17).findSome?
      fun finer => onGrid? rank (leadingPower rank - (finer : ℕ)) with
  | none => rw [Option.getD_none, value_expansion, rankOf_magnitude hrank.le]
  | some d =>
      obtain ⟨finer, _, hd⟩ := List.exists_of_findSome?_eq_some hgrid
      exact rankOf_of_onGrid? hd

/-- Nothing but zero is rounded to zero. -/
lemma shortest_digits_pos (hzero : rank ≠ 0) (hrank : rank < infinityRank) :
    0 < (shortest rank).digits := by
  have hround := rankOf_shortest hrank
  by_contra hdigits
  rw [Decimal.value, Nat.eq_zero_of_not_pos hdigits, Nat.cast_zero, zero_mul, ← magnitude_zero,
    rankOf_magnitude (Nat.zero_le _)] at hround
  exact hzero hround.symm

/-- The digits of a finite magnitude spell a rational that is rounded to it. -/
theorem spells_magnitudeText (hrank : rank < infinityRank) :
    ∃ q, Spells (magnitudeText rank) q ∧ 0 ≤ q ∧ rankOf q = rank := by
  rw [magnitudeText, if_neg hrank.ne]
  split_ifs with h
  · refine ⟨0, ?_, le_rfl, ?_⟩
    · exact_mod_cast Spells.whole (List.cons_ne_nil '0' []) (by simp)
    · rw [← magnitude_zero, rankOf_magnitude (Nat.zero_le _), h]
  · refine ⟨(shortest rank).value, Decimal.spells_positional (shortest_digits_pos h hrank), ?_,
      rankOf_shortest hrank⟩
    rw [Decimal.value]
    positivity

lemma toList_text (negative : Bool) (rank : Fin (infinityRank + 1)) :
    (text (.signed negative rank)).toList = withSign negative (magnitudeText rank) := by
  rw [text, String.toList_ofList, withSign]

end Binary64

/-! ## Reading what was written -/

namespace Number

open Binary64

/-- **The text of a binary64 number reads back as the number**, infinities, signed zeros and NaN
included. -/
theorem readFloat_text (f : Binary64) : readFloat f.text.toList = f := by
  match f with
  | .nan => rfl
  | .signed negative rank =>
      rw [toList_text]
      rcases (Nat.lt_succ_iff.mp rank.isLt).lt_or_eq with hfinite | hinf
      · obtain ⟨q, hspells, _, hround⟩ := spells_magnitudeText hfinite
        obtain ⟨n, hread, hnegative, hsize⟩ := hspells.read?_withSign negative
        rw [readFloat, hread]
        simp only [ofNumeral_eq, hnegative, hsize, hround]
      · obtain rfl : rank = ⟨infinityRank, Nat.lt_succ_self _⟩ := Fin.ext hinf
        cases negative <;> rfl

/-- The text of an integer of 64 bits reads back as the integer. -/
theorem read_text_int {i : ℤ} (h : fitsInt i = true) : read (text (.int i)) = .int i := by
  rw [text, read, Numeral.integer?_repr, Option.filter_some, if_pos h]

/-- The text of a binary64 number reads as that number again, or as an integer that is rounded to
the number. -/
theorem read_text_float (f : Binary64) :
    read f.text = .float f ∨ ∃ i : ℤ, read f.text = .int i ∧ fitsInt i = true ∧ f.Rounds i := by
  have hfloat := readFloat_text f
  rw [read]
  split
  · rename_i i hi
    obtain ⟨hi, hfits⟩ := Option.filter_eq_some_iff.mp hi
    refine Or.inr ⟨i, rfl, hfits, ?_⟩
    cases f with
    | nan => cases hi
    | signed negative rank =>
        rcases (Nat.lt_succ_iff.mp rank.isLt).lt_or_eq with hfinite | hinf
        · obtain ⟨q, hspells, hnonneg, hround⟩ := spells_magnitudeText hfinite
          rw [toList_text] at hi
          have hvalue := hspells.integer?_withSign hi
          have habs : |(i : ℚ)| = q := by
            rw [hvalue]
            cases negative <;> simp [abs_of_nonneg hnonneg]
          exact ⟨negative, rank, rfl, hfinite, by rw [habs, hvalue], by rw [habs, hround]⟩
        · obtain rfl : rank = ⟨infinityRank, Nat.lt_succ_self _⟩ := Fin.ext hinf
          cases negative <;> cases hi
  · exact Or.inl (congrArg Number.float hfloat)

end Number

end ItemStore
