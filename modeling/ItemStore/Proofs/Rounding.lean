import ItemStore.Proofs.NumberOrder

/-!
# Rounding to binary64

`rankOfRatio` picks a unit by the bit lengths of a ratio, divides, and rounds the quotient; huge and
tiny exponents of ten never get that far.  What it computes depends on the rational alone: the
nearest magnitude, the one of even rank among two that are equally near, and infinity past the last
finite one.

* `Binary64.IsNearest` — the magnitude of a rank is nearest to a rational, with no last rank.
* `Binary64.rankOf` — the rank that a rational is rounded to.  `rankOf_eq_of_isNearest` is its
  specification.
* **`Binary64.rankOfRatio_eq`**, **`Binary64.rankOfDecimal_eq`** — a ratio and a decimal are rounded
  by their values.
* **`Binary64.rankOf_mono`**, **`Binary64.rankOf_magnitude`** — rounding keeps the order, and leaves
  magnitudes alone.
* `Binary64.Rounds` — a number is the nearest to a rational.  `Binary64.Rounds.eq_of_small` and
  `Binary64.Rounds.rank_le` say what this leaves open for integers.
-/

namespace ItemStore

/-- An integer power as a quotient of natural ones. -/
lemma zpow_eq_div {b : ℚ} (hb : b ≠ 0) (e : ℤ) : b ^ e = b ^ e.toNat / b ^ (-e).toNat := by
  have hsplit : e = (e.toNat : ℤ) - ((-e).toNat : ℤ) := by omega
  conv_lhs => rw [hsplit, zpow_sub₀ hb, zpow_natCast, zpow_natCast]

namespace Binary64

/-! ## Nearest magnitudes -/

/-- No magnitude is nearer to a rational than the one of this rank, and the rank is even if another
one is as near. -/
structure IsNearest (q : ℚ) (rank : ℕ) : Prop where
  least : ∀ s, |q - magnitude rank| ≤ |q - magnitude s|
  even : ∀ s, s ≠ rank → |q - magnitude s| = |q - magnitude rank| → Even rank

variable {q p : ℚ} {a r s : ℕ}

lemma magnitude_nonneg (rank : ℕ) : 0 ≤ magnitude rank := by
  rw [← magnitude_zero]
  exact magnitude_strictMono.monotone (Nat.zero_le _)

/-- Magnitudes but for two neighbours are farther away from what lies between these. -/
lemma farther_of_between (hlo : magnitude a ≤ q) (hhi : q ≤ magnitude (a + 1)) (s : ℕ) :
    (s = a ∨ q - magnitude a < |q - magnitude s|) ∧ q - magnitude a ≤ |q - magnitude s| ∨
    (s = a + 1 ∨ magnitude (a + 1) - q < |q - magnitude s|) ∧
      magnitude (a + 1) - q ≤ |q - magnitude s| := by
  rcases Nat.lt_trichotomy s a with hlt | rfl | hgt
  · have hmag := magnitude_strictMono hlt
    have habs := le_abs_self (q - magnitude s)
    exact Or.inl ⟨Or.inr (by linarith), by linarith⟩
  · exact Or.inl ⟨Or.inl rfl, le_abs_self _⟩
  · have hswap := neg_abs_le (q - magnitude s)
    rcases (Nat.succ_le_of_lt hgt).eq_or_lt with rfl | hgt
    · exact Or.inr ⟨Or.inl rfl, by linarith⟩
    · have hmag := magnitude_strictMono hgt
      simp only [Nat.succ_eq_add_one] at hmag
      exact Or.inr ⟨Or.inr (by linarith), by linarith⟩

/-- The lower of two neighbours is nearest up to the middle, which it takes if it is even. -/
lemma isNearest_lower (hlo : magnitude a ≤ q) (hmid : 2 * q ≤ magnitude a + magnitude (a + 1))
    (htie : 2 * q = magnitude a + magnitude (a + 1) → Even a) : IsNearest q a := by
  have hhi : q ≤ magnitude (a + 1) := by linarith
  have hdist : |q - magnitude a| = q - magnitude a := abs_of_nonneg (by linarith)
  constructor
  · intro s
    rw [hdist]
    rcases farther_of_between hlo hhi s with ⟨_, h⟩ | ⟨_, h⟩ <;> linarith
  · intro s hne heq
    rw [hdist] at heq
    rcases farther_of_between hlo hhi s with ⟨rfl | h, _⟩ | ⟨_, h⟩
    · exact absurd rfl hne
    · exact absurd heq h.ne'
    · exact htie (by linarith)

/-- The upper of two neighbours is nearest from the middle on, which it takes if it is even. -/
lemma isNearest_upper (hhi : q ≤ magnitude (a + 1))
    (hmid : magnitude a + magnitude (a + 1) ≤ 2 * q)
    (htie : 2 * q = magnitude a + magnitude (a + 1) → Even (a + 1)) : IsNearest q (a + 1) := by
  have hlo : magnitude a ≤ q := by linarith
  have hdist : |q - magnitude (a + 1)| = magnitude (a + 1) - q := by
    rw [abs_sub_comm]
    exact abs_of_nonneg (by linarith)
  constructor
  · intro s
    rw [hdist]
    rcases farther_of_between hlo hhi s with ⟨_, h⟩ | ⟨_, h⟩ <;> linarith
  · intro s hne heq
    rw [hdist] at heq
    rcases farther_of_between hlo hhi s with ⟨_, h⟩ | ⟨rfl | h, _⟩
    · exact htie (by linarith)
    · exact absurd rfl hne
    · exact absurd heq h.ne'

/-- A magnitude is nearest to itself. -/
lemma isNearest_magnitude (rank : ℕ) : IsNearest (magnitude rank) rank := by
  have hlt := magnitude_lt_succ rank
  exact isNearest_lower le_rfl (by linarith) fun h => absurd h (by linarith)

/-- What is nearest to a rational lies on its side of the middle to any other magnitude. -/
lemma IsNearest.two_mul_le (hr : IsNearest q r) (hlt : r < s) :
    2 * q ≤ magnitude r + magnitude s := by
  have hmag := magnitude_strictMono hlt
  have hsq := sq_le_sq.mpr (hr.least s)
  nlinarith

lemma IsNearest.le_two_mul (hs : IsNearest q s) (hlt : r < s) :
    magnitude r + magnitude s ≤ 2 * q := by
  have hmag := magnitude_strictMono hlt
  have hsq := sq_le_sq.mpr (hs.least r)
  nlinarith

/-- **There is one nearest magnitude.**  Two would be neighbours, because the magnitudes between
them would be nearer, and then one of the ranks is odd. -/
lemma IsNearest.unique (hr : IsNearest q r) (hs : IsNearest q s) : r = s := by
  by_contra hne
  wlog hlt : r < s generalizing r s
  · exact this hs hr (Ne.symm hne) (by omega)
  have hdist : |q - magnitude r| = |q - magnitude s| := le_antisymm (hr.least s) (hs.least r)
  have hevenr : Even r := hr.even s (Ne.symm hne) hdist.symm
  have hevens : Even s := hs.even r hne hdist
  have hgap : r + 1 < s := by
    obtain ⟨m, rfl⟩ := hevenr
    obtain ⟨n, rfl⟩ := hevens
    omega
  have hmag := magnitude_strictMono hgap
  have hlower := hr.two_mul_le (Nat.lt_succ_self r)
  have hupper := hs.le_two_mul hlt
  rw [Nat.succ_eq_add_one] at hlower
  linarith

/-- Nearest magnitudes are in the order of what they are nearest to. -/
lemma IsNearest.mono (hr : IsNearest q r) (hs : IsNearest p s) (hle : q ≤ p) : r ≤ s := by
  by_contra hlt
  have hupper := hr.le_two_mul (not_le.mp hlt)
  have hlower := hs.two_mul_le (not_le.mp hlt)
  obtain rfl : q = p := by linarith
  exact hlt (hr.unique hs).le

/-! ## Units -/

/-- A count `n` of units `2 ^ u`, with the leading bit that a unit above the least one needs, is the
magnitude whose rank has the exponent of the unit and the count behind it. -/
lemma magnitude_units {u : ℤ} {n : ℕ} (hu : -1074 ≤ u) (hn : n ≤ 2 ^ 53)
    (hleading : u = -1074 ∨ 2 ^ 52 ≤ n) :
    magnitude ((u + 1074).toNat * 2 ^ 52 + n) = n * (2 : ℚ) ^ u := by
  obtain ⟨k, rfl⟩ : ∃ k : ℕ, u = k - 1074 := ⟨(u + 1074).toNat, by omega⟩
  have hk : ((k : ℤ) - 1074 + 1074).toNat = k := by omega
  rw [hk, magnitude_eq]
  rcases hn.eq_or_lt with rfl | hn
  · -- the count has grown one bit too long: the unit is twice as much
    have hsignificand : significand (k * 2 ^ 52 + 2 ^ 53) = 2 ^ 52 := by
      rw [significand, if_neg (by omega)]
      omega
    have hexponent : unitExponent (k * 2 ^ 52 + 2 ^ 53) = (k - 1074 : ℤ) + 1 := by
      rw [unitExponent, if_neg (by omega)]
      omega
    rw [hsignificand, hexponent, zpow_add_one₀ two_ne_zero]
    push_cast
    ring
  · by_cases hnormal : 2 ^ 52 ≤ n
    · have hsignificand : significand (k * 2 ^ 52 + n) = n := by
        rw [significand, if_neg (by omega)]
        omega
      have hexponent : unitExponent (k * 2 ^ 52 + n) = (k - 1074 : ℤ) := by
        rw [unitExponent, if_neg (by omega)]
        omega
      rw [hsignificand, hexponent]
    · obtain rfl : k = 0 := by omega
      have hsmall : 0 * 2 ^ 52 + n < 2 ^ 52 := by omega
      rw [significand, unitExponent, if_pos hsmall, if_pos hsmall, zero_mul, zero_add]
      rfl

/-- The rank of a power of two: an exponent and no fraction bit. -/
def rankOfTwoPow (k : ℕ) : ℕ := (k + 1023) * 2 ^ 52

lemma magnitude_rankOfTwoPow (k : ℕ) : magnitude (rankOfTwoPow k) = 2 ^ k := by
  have hrank : rankOfTwoPow k = ((k - 53 : ℤ) + 1074).toNat * 2 ^ 52 + 2 ^ 53 := by
    rw [rankOfTwoPow]
    omega
  have hleading : (k - 53 : ℤ) = -1074 ∨ 2 ^ 52 ≤ 2 ^ 53 := Or.inr (by norm_num)
  rw [hrank, magnitude_units (by omega) le_rfl hleading, Nat.cast_pow, Nat.cast_ofNat,
    ← zpow_natCast, ← zpow_add₀ two_ne_zero, ← zpow_natCast]
  congr 1
  omega

/-- Infinity takes the place of the power of two past the last finite magnitude. -/
lemma rankOfTwoPow_1024 : rankOfTwoPow 1024 = infinityRank := rfl

/-- The binade of a ratio, up to a factor of two. -/
lemma binade_spec {num den : ℕ} (hnum : 0 < num) (hden : 0 < den) :
    (2 : ℚ) ^ binade num den ≤ num / den ∧ (num / den : ℚ) < 2 ^ (binade num den + 1) := by
  have hden' : (0 : ℚ) < den := by exact_mod_cast hden
  have hnumlo : (2 : ℚ) ^ (num.log2 : ℤ) ≤ num := by
    exact_mod_cast Nat.log2_self_le hnum.ne'
  have hnumhi : (num : ℚ) < 2 ^ ((num.log2 : ℤ) + 1) := by
    exact_mod_cast Nat.lt_log2_self
  have hdenlo : (2 : ℚ) ^ (den.log2 : ℤ) ≤ den := by
    exact_mod_cast Nat.log2_self_le hden.ne'
  have hdenhi : (den : ℚ) < 2 ^ ((den.log2 : ℤ) + 1) := by
    exact_mod_cast Nat.lt_log2_self
  have hguess : ∀ g : ℤ, den * 2 ^ g.toNat ≤ num * 2 ^ (-g).toNat ↔ (2 : ℚ) ^ g ≤ num / den := by
    intro g
    rw [zpow_eq_div two_ne_zero, div_le_div_iff₀ (by positivity) hden', mul_comm ((2 : ℚ) ^ _)]
    exact_mod_cast Iff.rfl
  rw [binade]
  split
  · rename_i h
    refine ⟨(hguess _).mp h, ?_⟩
    rw [div_lt_iff₀ hden']
    calc (num : ℚ) < 2 ^ ((num.log2 : ℤ) + 1) := hnumhi
      _ = 2 ^ ((num.log2 : ℤ) - den.log2 + 1) * 2 ^ (den.log2 : ℤ) := by
          rw [← zpow_add₀ two_ne_zero]
          ring_nf
      _ ≤ 2 ^ ((num.log2 : ℤ) - den.log2 + 1) * den := by gcongr
  · rename_i h
    rw [hguess, not_le] at h
    refine ⟨?_, by rwa [sub_add_cancel]⟩
    rw [le_div_iff₀ hden']
    calc (2 : ℚ) ^ ((num.log2 : ℤ) - den.log2 - 1) * den
        ≤ 2 ^ ((num.log2 : ℤ) - den.log2 - 1) * 2 ^ ((den.log2 : ℤ) + 1) := by gcongr
      _ = 2 ^ (num.log2 : ℤ) := by
          rw [← zpow_add₀ two_ne_zero]
          ring_nf
      _ ≤ num := hnumlo

/-- Rounding a quotient takes one of the two naturals next to it, the even one at the middle. -/
lemma nearestEven_cases (num den : ℕ) :
    (nearestEven num den = num / den ∧ 2 * (num % den) ≤ den ∧
        (2 * (num % den) = den → Even (num / den))) ∨
      (nearestEven num den = num / den + 1 ∧ den ≤ 2 * (num % den) ∧
        (2 * (num % den) = den → Even (num / den + 1))) := by
  simp only [nearestEven, Nat.even_iff]
  split_ifs
  · exact Or.inl ⟨rfl, by omega, by omega⟩
  · exact Or.inr ⟨rfl, by omega, by omega⟩
  · rcases Nat.mod_two_eq_zero_or_one (num / den) with h | h
    · exact Or.inl ⟨by omega, by omega, by omega⟩
    · exact Or.inr ⟨by omega, by omega, by omega⟩

/-! ## Ratios -/

/-- Rounding a quotient finds the nearest magnitude where these count units one by one. -/
lemma isNearest_nearestEven {n d base : ℕ} {unit : ℚ} (hd : 0 < d) (hunit : 0 < unit)
    (hbase : Even base) (hbelow : magnitude (base + n / d) = (n / d : ℕ) * unit)
    (habove : magnitude (base + n / d + 1) = ((n / d : ℕ) + 1) * unit) :
    IsNearest (n / d * unit) (base + nearestEven n d) := by
  have hd' : (0 : ℚ) < d := by exact_mod_cast hd
  have hstep : 0 < unit / d := by positivity
  have hrest : ((n % d : ℕ) : ℚ) ≤ d := by exact_mod_cast (Nat.mod_lt n hd).le
  have hratio : (n / d * unit : ℚ) = (n / d : ℕ) * unit + (n % d : ℕ) * (unit / d) := by
    have hdivision : (n : ℚ) = d * (n / d : ℕ) + (n % d : ℕ) := by
      exact_mod_cast (Nat.div_add_mod n d).symm
    rw [hdivision]
    field_simp
  -- how far the ratio is from the middle between the two naturals next to it
  have hmiddle : magnitude (base + n / d) + magnitude (base + n / d + 1) - 2 * (n / d * unit)
      = (d - 2 * (n % d : ℕ)) * (unit / d) := by
    rw [hbelow, habove, hratio]
    field_simp
    ring
  have htie : 2 * (n / d * unit) = magnitude (base + n / d) + magnitude (base + n / d + 1) →
      2 * (n % d) = d := by
    intro h
    rw [← h, sub_self, eq_comm, mul_eq_zero_iff_right hstep.ne', sub_eq_zero] at hmiddle
    exact_mod_cast hmiddle.symm
  rcases nearestEven_cases n d with ⟨hcase, hle, heven⟩ | ⟨hcase, hle, heven⟩
  · have hsign : 0 ≤ ((d : ℚ) - 2 * (n % d : ℕ)) * (unit / d) :=
      mul_nonneg (sub_nonneg.mpr (by exact_mod_cast hle)) hstep.le
    rw [hcase]
    refine isNearest_lower ?_ (by linarith) fun h => hbase.add (heven (htie h))
    rw [hbelow, hratio, le_add_iff_nonneg_right]
    positivity
  · have hsign : ((d : ℚ) - 2 * (n % d : ℕ)) * (unit / d) ≤ 0 :=
      mul_nonpos_of_nonpos_of_nonneg (sub_nonpos.mpr (by exact_mod_cast hle)) hstep.le
    rw [hcase, ← add_assoc]
    refine isNearest_upper ?_ (by linarith) fun h => ?_
    · rw [habove, hratio, add_one_mul, add_le_add_iff_left, mul_div_assoc', div_le_iff₀ hd',
        mul_comm]
      gcongr
    · rw [add_assoc]
      exact hbase.add (heven (htie h))

/-- The units of a ratio, rounded, count the magnitude nearest to it. -/
lemma isNearest_units {num den : ℕ} {unit : ℤ} (hden : 0 < den) (hunit : -1074 ≤ unit)
    (hlo : unit = -1074 ∨ (2 : ℚ) ^ (unit + 52) ≤ num / den)
    (hhi : (num / den : ℚ) < 2 ^ (unit + 53)) :
    IsNearest (num / den) ((unit + 1074).toNat * 2 ^ 52
      + nearestEven (num * 2 ^ (-unit).toNat) (den * 2 ^ unit.toNat)) := by
  have hpow : (0 : ℚ) < 2 ^ unit := by positivity
  set n := num * 2 ^ (-unit).toNat with hn
  set d := den * 2 ^ unit.toNat with hd
  have hdpos : 0 < d := by positivity
  have hratio : (num / den : ℚ) = n / d * 2 ^ unit := by
    rw [zpow_eq_div two_ne_zero, hn, hd]
    push_cast
    field_simp
  rw [hratio] at hlo hhi ⊢
  have hcount : n / d < 2 ^ 53 := by
    rw [zpow_add₀ two_ne_zero, mul_comm (2 ^ unit), mul_lt_mul_iff_left₀ hpow] at hhi
    rw [Nat.div_lt_iff_lt_mul hdpos]
    rw [div_lt_iff₀ (by exact_mod_cast hdpos)] at hhi
    exact_mod_cast hhi
  have hleading : unit = -1074 ∨ 2 ^ 52 ≤ n / d := by
    refine hlo.imp_right fun hlo => ?_
    rw [zpow_add₀ two_ne_zero, mul_comm (2 ^ unit), mul_le_mul_iff_left₀ hpow] at hlo
    rw [Nat.le_div_iff_mul_le hdpos]
    rw [le_div_iff₀ (by exact_mod_cast hdpos)] at hlo
    exact_mod_cast hlo
  have hbase : Even ((unit + 1074).toNat * 2 ^ 52) := Nat.even_mul.mpr (Or.inr (by decide))
  refine isNearest_nearestEven hdpos hpow hbase (magnitude_units hunit hcount.le hleading) ?_
  have hleading' : unit = -1074 ∨ 2 ^ 52 ≤ n / d + 1 := by omega
  rw [add_assoc, magnitude_units hunit hcount hleading']
  push_cast
  rfl

/-- **Rounding a ratio finds the nearest magnitude**, or infinity where that is past the end. -/
theorem isNearest_rankOfRatio (num : ℕ) {den : ℕ} (hden : 0 < den) :
    ∃ r, IsNearest (num / den) r ∧ rankOfRatio num den = min infinityRank r := by
  rcases Nat.eq_zero_or_pos num with rfl | hnum
  · refine ⟨0, ?_, by rw [rankOfRatio, if_pos rfl, Nat.min_zero]⟩
    have h := isNearest_magnitude 0
    rwa [magnitude_zero, ← zero_div (den : ℚ), ← Nat.cast_zero] at h
  · obtain ⟨hlo, hhi⟩ := binade_spec hnum hden
    rw [rankOfRatio, if_neg hnum.ne']
    refine ⟨_, isNearest_units hden (le_max_right _ _) ?_ ?_, rfl⟩
    · rcases le_total (binade num den - 52) (-1074) with h | h
      · exact Or.inl (max_eq_right h)
      · rw [max_eq_left h, sub_add_cancel]
        exact Or.inr hlo
    · refine hhi.trans_le (zpow_le_zpow_right₀ one_le_two ?_)
      have h := le_max_left (binade num den - 52) (-1074)
      omega

/-! ## Rounding by value -/

/-- The rank that a rational is rounded to, its sign apart. -/
def rankOf (q : ℚ) : ℕ := rankOfRatio q.num.natAbs q.den

/-- A rational is rounded to the nearest rank, or to infinity where that is past the end. -/
lemma isNearest_rankOf (hq : 0 ≤ q) : ∃ r, IsNearest q r ∧ rankOf q = min infinityRank r := by
  have h := isNearest_rankOfRatio q.num.natAbs q.pos
  rwa [Nat.cast_natAbs, abs_of_nonneg (Rat.num_nonneg.mpr hq), Rat.num_div_den] at h

/-- **What a rational is rounded to** follows from the rank nearest to it. -/
theorem rankOf_eq_of_isNearest (hq : 0 ≤ q) (hr : IsNearest q r) :
    rankOf q = min infinityRank r := by
  obtain ⟨s, hs, hrank⟩ := isNearest_rankOf hq
  rw [hrank, hs.unique hr]

/-- **A ratio is rounded by its value**, whatever its terms. -/
theorem rankOfRatio_eq (num : ℕ) {den : ℕ} (hden : 0 < den) :
    rankOfRatio num den = rankOf (num / den) := by
  obtain ⟨r, hr, hrank⟩ := isNearest_rankOfRatio num hden
  rw [hrank, rankOf_eq_of_isNearest (by positivity) hr]

lemma rankOf_le (q : ℚ) : rankOf q ≤ infinityRank :=
  rankOfRatio_le _ _

/-- **Rounding keeps the order.** -/
theorem rankOf_mono (hq : 0 ≤ q) (hle : q ≤ p) : rankOf q ≤ rankOf p := by
  obtain ⟨r, hr, hrank⟩ := isNearest_rankOf hq
  obtain ⟨s, hs, hrank'⟩ := isNearest_rankOf (hq.trans hle)
  rw [hrank, hrank']
  exact min_le_min_left _ (hr.mono hs hle)

/-- **A magnitude is rounded to itself.** -/
theorem rankOf_magnitude (hr : r ≤ infinityRank) : rankOf (magnitude r) = r := by
  rw [rankOf_eq_of_isNearest (magnitude_nonneg r) (isNearest_magnitude r), min_eq_right hr]

/-! ## Decimals -/

/-- A decimal digit is worth more than three bits. -/
lemma two_pow_le_ten_pow {m n : ℕ} (h : m ≤ 3 * n) : (2 : ℚ) ^ m ≤ 10 ^ n :=
  calc (2 : ℚ) ^ m ≤ 2 ^ (3 * n) := pow_le_pow_right₀ one_le_two h
    _ = 8 ^ n := by rw [pow_mul]; norm_num
    _ ≤ 10 ^ n := by gcongr; norm_num

/-- Up to half of the least magnitude above it, zero is nearest. -/
lemma isNearest_zero (hq : 0 ≤ q) (hle : 2 * q ≤ 2 ^ (-1074 : ℤ)) : IsNearest q 0 := by
  have hleast : magnitude (0 + 1) = 2 ^ (-1074 : ℤ) := by
    have h := magnitude_units (u := -1074) (n := 1) le_rfl (by norm_num) (Or.inl rfl)
    simpa using h
  refine isNearest_lower ?_ ?_ fun _ => Even.zero
  · rwa [magnitude_zero]
  · rwa [magnitude_zero, hleast, zero_add]

/-- **A decimal is rounded by its value.**  The exponents that are settled beforehand are settled
rightly: a decimal above `10 ^ 400` is past the last finite magnitude, and one that has fewer digits
than zeros behind its point, by 400 and more, is next to zero. -/
theorem rankOfDecimal_eq (mantissa : ℕ) (exponent : ℤ) :
    rankOfDecimal mantissa exponent = rankOf (mantissa * 10 ^ exponent) := by
  rw [rankOfDecimal]
  split_ifs with hzero hlarge hsmall
  · rw [hzero, Nat.cast_zero, zero_mul, ← magnitude_zero, rankOf_magnitude (Nat.zero_le _)]
  · have hmantissa : (1 : ℚ) ≤ mantissa := by exact_mod_cast Nat.one_le_iff_ne_zero.mpr hzero
    have hpast : magnitude infinityRank ≤ mantissa * 10 ^ exponent :=
      calc magnitude infinityRank ≤ 1 * 10 ^ (400 : ℤ) := by
            rw [← rankOfTwoPow_1024, magnitude_rankOfTwoPow, one_mul, zpow_ofNat]
            exact two_pow_le_ten_pow (by norm_num)
        _ ≤ mantissa * 10 ^ exponent := by
            have h : (1 : ℚ) ≤ 10 := by norm_num
            gcongr
    refine le_antisymm ?_ (rankOf_le _)
    rw [← rankOf_magnitude le_rfl]
    exact rankOf_mono (magnitude_nonneg _) hpast
  · have hmantissa : (mantissa : ℚ) ≤ 10 ^ ((mantissa.log2 : ℤ) + 1) :=
      calc (mantissa : ℚ) ≤ 2 ^ (mantissa.log2 + 1) := by exact_mod_cast Nat.lt_log2_self.le
        _ ≤ 10 ^ (mantissa.log2 + 1) := by gcongr; norm_num
        _ = 10 ^ ((mantissa.log2 : ℤ) + 1) := by norm_cast
    have htiny : (mantissa * 10 ^ exponent : ℚ) ≤ 10 ^ (-400 : ℤ) :=
      calc (mantissa * 10 ^ exponent : ℚ)
          ≤ 10 ^ ((mantissa.log2 : ℤ) + 1) * 10 ^ (-(mantissa.log2 + 401) : ℤ) := by
            gcongr
            · norm_num
            · omega
        _ = 10 ^ (-400 : ℤ) := by
            rw [← zpow_add₀ (by norm_num)]
            ring_nf
    rw [rankOf_eq_of_isNearest (by positivity) (isNearest_zero (by positivity) ?_), Nat.min_zero]
    calc 2 * (mantissa * 10 ^ exponent : ℚ) ≤ 2 * 10 ^ (-400 : ℤ) := by gcongr
      _ ≤ 2 * 2 ^ (-1075 : ℤ) := by
          rw [zpow_neg, zpow_neg, zpow_ofNat, zpow_ofNat]
          gcongr
          exact two_pow_le_ten_pow (by norm_num)
      _ = 2 ^ (-1074 : ℤ) := by
          rw [← zpow_one_add₀ two_ne_zero]
          rfl
  · rw [rankOfRatio_eq _ (by positivity), zpow_eq_div (by norm_num), mul_div_assoc']
    push_cast
    rfl

/-! ## Integers -/

/-- Naturals of 53 bits are magnitudes. -/
lemma exists_magnitude_eq_natCast {n : ℕ} (hn : n < 2 ^ 53) : ∃ r, magnitude r = n := by
  rcases Nat.eq_zero_or_pos n with rfl | hpos
  · exact ⟨0, by simp⟩
  · have hlog : n.log2 ≤ 52 := by
      rw [← Nat.lt_succ_iff, Nat.log2_lt hpos.ne']
      exact hn
    obtain ⟨shift, hshift⟩ : ∃ shift, n.log2 + shift = 52 := ⟨52 - n.log2, by omega⟩
    have hcount : n * 2 ^ shift < 2 ^ 53 :=
      calc n * 2 ^ shift < 2 ^ (n.log2 + 1) * 2 ^ shift := by
            gcongr
            exact Nat.lt_log2_self
        _ = 2 ^ 53 := by rw [← pow_add, show n.log2 + 1 + shift = 53 by omega]
    have hleading : 2 ^ 52 ≤ n * 2 ^ shift :=
      calc 2 ^ 52 = 2 ^ n.log2 * 2 ^ shift := by rw [← pow_add, hshift]
        _ ≤ n * 2 ^ shift := by
            gcongr
            exact Nat.log2_self_le hpos.ne'
    refine ⟨_, (magnitude_units (u := -shift) (by omega) hcount.le (Or.inr hleading)).trans ?_⟩
    rw [zpow_neg, zpow_natCast]
    push_cast
    field_simp

/-- A natural that is rounded to a magnitude below `2 ^ 53` is that magnitude. -/
theorem magnitude_eq_of_rankOf {n : ℕ} (hsmall : magnitude (rankOf n) < 2 ^ 53) :
    magnitude (rankOf n) = n := by
  have hn : n < 2 ^ 53 := by
    by_contra hlarge
    have hle : magnitude (rankOfTwoPow 53) ≤ (n : ℚ) := by
      rw [magnitude_rankOfTwoPow]
      exact_mod_cast not_lt.mp hlarge
    have hrank := rankOf_mono (magnitude_nonneg _) hle
    rw [rankOf_magnitude (by decide)] at hrank
    have hmag := magnitude_strictMono.monotone hrank
    rw [magnitude_rankOfTwoPow] at hmag
    exact hsmall.not_ge hmag
  obtain ⟨r, hr⟩ := exists_magnitude_eq_natCast hn
  have hle : r ≤ infinityRank := by
    rw [← magnitude_strictMono.le_iff_le, hr, ← rankOfTwoPow_1024, magnitude_rankOfTwoPow]
    have hnum : (n : ℚ) < 2 ^ 53 := by exact_mod_cast hn
    exact hnum.le.trans (pow_le_pow_right₀ one_le_two (by norm_num))
  rw [← hr, rankOf_magnitude hle]

end Binary64

/-! ## Numbers nearest to rationals -/

/-- The value of a numeral, its sign apart. -/
def Numeral.size (n : Numeral) : ℚ := n.mantissa * 10 ^ n.exponent

namespace Binary64

/-- A numeral is read as the number nearest to it. -/
lemma ofNumeral_eq (n : Numeral) :
    ofNumeral n = .signed n.negative ⟨rankOf n.size, Nat.lt_succ_of_le (rankOf_le _)⟩ := by
  simp only [ofNumeral, rankOfDecimal_eq, Numeral.size]

/-- A finite number is the nearest to a rational.  Zero is nearest with either sign. -/
def Rounds (f : Binary64) (q : ℚ) : Prop :=
  ∃ negative rank, f = .signed negative rank ∧ rank.val < infinityRank ∧
    q = (if negative then -|q| else |q|) ∧ rankOf |q| = rank

variable {f : Binary64} {i : ℤ} {x : ℚ}

lemma value?_eq_ofRat (hx : f.value? = some (.ofRat x)) :
    ∃ negative rank, f = .signed negative rank ∧
      x = if negative then -magnitude rank else magnitude rank := by
  match f with
  | .signed negative rank =>
      refine ⟨negative, rank, rfl, ?_⟩
      rw [value?, Option.some.injEq] at hx
      by_cases hinf : rank.val = infinityRank
      · rw [if_pos hinf] at hx
        cases negative
        · exact absurd hx (Extended.ofRat_lt_top x).ne'
        · exact absurd hx (Extended.bot_lt_ofRat x).ne
      · rw [if_neg hinf] at hx
        exact (Extended.ofRat_strictMono.injective hx).symm

lemma abs_eq_magnitude {negative : Bool} {rank : ℕ}
    (hx : x = if negative then -magnitude rank else magnitude rank) : |x| = magnitude rank := by
  have h := abs_of_nonneg (magnitude_nonneg rank)
  cases negative <;> simp [hx, h]

/-- Below `2 ^ 53` no other integer is rounded to a number. -/
theorem Rounds.eq_of_small (h : f.Rounds i) (hx : f.value? = some (.ofRat x))
    (hsmall : |x| < 2 ^ 53) : x = i := by
  obtain ⟨negative, rank, rfl, _, hsign, hround⟩ := h
  obtain ⟨_, _, hf, hvalue⟩ := value?_eq_ofRat hx
  cases hf
  have hnat : ((i.natAbs : ℕ) : ℚ) = |(i : ℚ)| := by simp
  rw [abs_eq_magnitude hvalue, ← hround, ← hnat] at hsmall
  have hmag := magnitude_eq_of_rankOf hsmall
  rw [hnat, hround] at hmag
  rw [hvalue, hsign, hmag]

/-- Integers up to `2 ^ 63` are rounded to numbers up to it, in either direction. -/
theorem Rounds.rank_le {negative : Bool} {rank : Fin (infinityRank + 1)}
    (h : Rounds (.signed negative rank) i) (hi : |(i : ℚ)| ≤ 2 ^ 63) :
    rank.val ≤ rankOfTwoPow 63 := by
  obtain ⟨_, _, hf, _, _, hround⟩ := h
  cases hf
  have hlimit : rankOfTwoPow 63 ≤ infinityRank := by decide
  rw [← hround, ← rankOf_magnitude hlimit, magnitude_rankOfTwoPow]
  exact rankOf_mono (abs_nonneg _) hi

end Binary64

end ItemStore
