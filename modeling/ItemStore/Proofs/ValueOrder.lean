import ItemStore.Proofs.Sameness

/-!
# The order of decoded values

Decoded values stand on three lines that have nothing to do with each other: numbers on the rational
line with its infinities, texts in the order of their code points, booleans with false before true.
Nulls, lists, maps and NaNs stand on none.  Comparing two values is looking where they stand.

* `Decoded.point?` — where a value stands, and `Decoded.Point.order` — the order of two points.
* `Binary64.compareByParts` — an integer of 64 bits against a binary64 number, by a range test, the
  whole part and the fraction.  **`Binary64.compareInt_eq_compareByParts`** — this is the exact
  order.
* **`Decoded.compare_exact`** — comparison is the order of points, so it turns round with its
  arguments, is transitive across representations, and goes along with sameness.
-/

namespace ItemStore

/-! ## Comparison by parts -/

namespace Binary64

/-- The order of an integer of 64 bits and a number.  A number outside the range of these integers
lies beyond all of them.  Within it the whole part decides, and the fraction where the whole part is
the integer itself. -/
def compareByParts (i : Int) : Binary64 → Option Ordering
  | .nan => none
  | .signed negative rank =>
    let num : Int := if negative then -(numerator rank : Int) else numerator rank
    let den : Int := denominator rank
    if 2 ^ 63 * den ≤ num then some .lt
    else if num < -(2 ^ 63 * den) then some .gt
    else some ((Ord.compare i (num.tdiv den)).then (Ord.compare 0 (num.tmod den)))

/-- Cross multiplication compares whole parts first and then the fraction with zero. -/
lemma compare_mul_eq_then {i num den : ℤ} (hden : 0 < den) :
    Ord.compare (i * den) num
      = (Ord.compare i (num.tdiv den)).then (Ord.compare 0 (num.tmod den)) := by
  have hsplit : num.tdiv den * den + num.tmod den = num := Int.tdiv_mul_add_tmod num den
  have hupper : num.tmod den < den := Int.tmod_lt_of_pos num hden
  have hlower : -den < num.tmod den := Int.lt_tmod_of_pos num hden
  rcases lt_trichotomy i (num.tdiv den) with hlt | heq | hgt
  · have hstep : (i + 1) * den ≤ num.tdiv den * den := by gcongr; omega
    rw [Int.compare_eq_lt.mpr hlt, Ordering.lt_then, Int.compare_eq_lt]
    linarith
  · rw [Int.compare_eq_eq.mpr heq, Ordering.eq_then, heq, compare_eq_cmp, compare_eq_cmp]
    calc cmp (num.tdiv den * den) num
        = cmp (num.tdiv den * den + 0) (num.tdiv den * den + num.tmod den) := by
          rw [add_zero, hsplit]
      _ = cmp 0 (num.tmod den) := cmp_add_left _ _ _
  · have hstep : (num.tdiv den + 1) * den ≤ i * den := by gcongr; omega
    rw [Int.compare_eq_gt.mpr hgt, Ordering.gt_then, Int.compare_eq_gt]
    linarith

/-- **Comparing by parts is exact** for the integers of 64 bits.  The range test also settles the
infinities, which have no parts. -/
theorem compareInt_eq_compareByParts {i : ℤ} (hi : Number.fitsInt i = true) (f : Binary64) :
    f.compareInt i = f.compareByParts i := by
  match f with
  | .nan => rfl
  | .signed negative rank =>
      obtain ⟨hlow, hhigh⟩ : -2 ^ 63 ≤ i ∧ i < 2 ^ 63 := by
        simpa [Number.fitsInt] using hi
      simp only [compareInt, compareByParts]
      by_cases hinf : rank.val = infinityRank
      · have hbeyond : (2 ^ 63 * denominator infinityRank : ℤ) < numerator infinityRank := by
          decide +kernel
        have hpos : (0 : ℤ) < denominator infinityRank := by decide +kernel
        rw [if_pos hinf, hinf]
        cases negative <;> simp only [if_true, if_false, Bool.false_eq_true]
        · rw [if_pos hbeyond.le]
        · rw [if_neg (by linarith), if_pos (neg_lt_neg hbeyond)]
      · rw [if_neg hinf]
        have hden : (0 : ℤ) < denominator rank := by exact_mod_cast denominator_pos rank
        generalize (denominator rank : ℤ) = den at hden ⊢
        generalize (if negative then -(numerator rank : ℤ) else numerator rank : ℤ) = num
        split_ifs with habove hbelow
        · rw [Int.compare_eq_lt.mpr]
          calc i * den < 2 ^ 63 * den := by gcongr
            _ ≤ num := habove
        · rw [Int.compare_eq_gt.mpr]
          calc num < -(2 ^ 63 * den) := hbelow
            _ = -2 ^ 63 * den := by ring
            _ ≤ i * den := by gcongr
        · rw [compare_mul_eq_then hden]

end Binary64

/-! ## Points -/

namespace Decoded

/-- A point of one of the lines on which values are ordered. -/
inductive Point where
  | number (x : Extended)
  | text (s : String)
  | bool (b : Bool)

/-- The order of two points, if they stand on one line. -/
def Point.order : Point → Point → Option Ordering
  | number x, number y => some (cmp x y)
  | text s, text t => some (cmp s t)
  | bool a, bool b => some (cmp a b)
  | _, _ => none

namespace Point

/-- On a line the order of the outer two of three points follows from the two steps between. -/
lemma cmp_eq_then {α : Type} [LinearOrder α] {x y z : α} (hxy : cmp x y ≠ .gt)
    (hyz : cmp y z ≠ .gt) : cmp x z = (cmp x y).then (cmp y z) := by
  have hle : x ≤ y := not_lt.mp fun h => hxy ((cmp_eq_gt_iff x y).mpr h)
  have hle' : y ≤ z := not_lt.mp fun h => hyz ((cmp_eq_gt_iff y z).mpr h)
  rcases hle.lt_or_eq with hlt | rfl
  · rw [(cmp_eq_lt_iff x y).mpr hlt, Ordering.lt_then, cmp_eq_lt_iff]
    exact hlt.trans_le hle'
  · rw [cmp_self_eq_eq, Ordering.eq_then]

lemma order_swap (x y : Point) : y.order x = (x.order y).map Ordering.swap := by
  cases x <;> cases y <;> simp [order, cmp_swap]

lemma order_trans {x y z : Point} {o o' : Ordering} (hxy : x.order y = some o)
    (hyz : y.order z = some o') (ho : o ≠ .gt) (ho' : o' ≠ .gt) :
    x.order z = some (o.then o') := by
  cases x <;> cases y <;> simp only [order, reduceCtorEq, Option.some.injEq] at hxy <;>
    cases z <;> simp only [order, reduceCtorEq, Option.some.injEq] at hyz ⊢ <;>
    subst hxy hyz <;> exact cmp_eq_then ho ho'

end Point

/-- Where a value stands. -/
def point? : Decoded → Option Point
  | .number n => n.value?.map .number
  | .text s => some (.text s)
  | .bool b => some (.bool b)
  | .null | .list _ | .map _ => none

lemma compareText_eq_cmp (s t : String) : compareText s t = cmp s t := by
  rw [compareText]
  rcases lt_trichotomy s t with hlt | heq | hgt
  · rw [if_pos hlt, (cmp_eq_lt_iff s t).mpr hlt]
  · rw [if_neg (heq ▸ lt_irrefl s), if_pos heq, (cmp_eq_eq_iff s t).mpr heq]
  · rw [if_neg hgt.asymm, if_neg hgt.ne', (cmp_eq_gt_iff s t).mpr hgt]

lemma compareBool_eq_cmp (a b : Bool) : compareBool a b = cmp a b := by
  cases a <;> cases b <;> rfl

/-- **Comparing values is comparing the points they stand at.** -/
theorem compare_eq_order (a b : Decoded) :
    a.compare b = a.point?.bind fun x => b.point?.bind fun y => x.order y := by
  cases a <;> cases b <;>
    simp only [compare, point?, Option.bind_some, Option.bind_none, Point.order,
      compareText_eq_cmp, compareBool_eq_cmp, Option.bind_fun_none]
  case number.number m n =>
    rw [Number.compare_eq]
    cases m.value? <;> cases n.value? <;> rfl
  all_goals cases Number.value? ‹Number› <;> rfl

lemma compare_eq_some {a b : Decoded} {o : Ordering} :
    a.compare b = some o ↔
      ∃ x y, a.point? = some x ∧ b.point? = some y ∧ x.order y = some o := by
  simp only [compare_eq_order, Option.bind_eq_some_iff]
  constructor
  · rintro ⟨x, hx, y, hy, h⟩
    exact ⟨x, y, hx, hy, h⟩
  · rintro ⟨x, y, hx, hy, h⟩
    exact ⟨x, hx, y, hy, h⟩

theorem compare_swap (a b : Decoded) : b.compare a = (a.compare b).map Ordering.swap := by
  rw [compare_eq_order, compare_eq_order]
  cases a.point? with
  | none => cases b.point? <;> rfl
  | some x =>
      cases b.point? with
      | none => rfl
      | some y => exact x.order_swap y

theorem compare_trans {a b c : Decoded} {o o' : Ordering} (hab : a.compare b = some o)
    (hbc : b.compare c = some o') (ho : o ≠ .gt) (ho' : o' ≠ .gt) :
    a.compare c = some (o.then o') := by
  obtain ⟨x, y, hx, hy, hxy⟩ := compare_eq_some.mp hab
  obtain ⟨y', z, hy', hz, hyz⟩ := compare_eq_some.mp hbc
  obtain rfl : y = y' := Option.some.inj (hy.symm.trans hy')
  exact compare_eq_some.mpr ⟨x, z, hx, hz, Point.order_trans hxy hyz ho ho'⟩

/-- Where two values are ordered, they are the same when neither comes first. -/
theorem eq_iff_same_of_compare {a b : Decoded} {o : Ordering} (h : a.compare b = some o) :
    o = .eq ↔ a.same b = true := by
  cases a <;> cases b <;> simp only [compare, reduceCtorEq, Option.some.injEq] at h
  case number.number m n => simp [same, Number.same, h]
  case text.text s t => rw [← h, compareText_eq_cmp, cmp_eq_eq_iff, same, beq_iff_eq]
  case bool.bool a b => rw [← h, compareBool_eq_cmp, cmp_eq_eq_iff, same, beq_iff_eq]

/-- **Comparison is the exact order of values.**  Two values compare as the points at which they
stand: integers at themselves, finite floats at the dyadic rationals that they represent, infinities
beyond everything finite, texts and booleans on lines of their own.  A value that stands nowhere,
such as a NaN, compares with nothing.  An integer of 64 bits and a float may be compared by parts.

Comparison turns round with its arguments; what is less or equal in two steps is so in one, and
equal only if it is in both; and values that compare are equal when they are the same. -/
theorem compare_exact (a b : Decoded) :
    (a.compare b = a.point?.bind fun x => b.point?.bind fun y => x.order y) ∧
      (∀ i f, a = .number (.int i) → b = .number (.float f) → Number.fitsInt i = true →
        a.compare b = f.compareByParts i) ∧
      b.compare a = (a.compare b).map Ordering.swap ∧
      (∀ c o o', a.compare b = some o → b.compare c = some o' → o ≠ .gt → o' ≠ .gt →
        a.compare c = some (o.then o')) ∧
      ∀ o, a.compare b = some o → (o = .eq ↔ a.same b = true) := by
  refine ⟨compare_eq_order a b, ?_, compare_swap a b, fun _ _ _ => compare_trans,
    fun _ => eq_iff_same_of_compare⟩
  rintro i f rfl rfl hi
  exact Binary64.compareInt_eq_compareByParts hi f

/-- Around `2 ^ 53`, where a float skips every other integer. -/
theorem compare_exact_sample :
    (Value.number "9007199254740993").decode.compare (Value.number "9007199254740992.0").decode
        = (Number.readFloat "9007199254740992.0".toList).compareByParts 9007199254740993 ∧
      (Value.number "9007199254740992").decode.compare (Value.number "9007199254740993").decode
        = some .lt ∧
      (Value.number "9007199254740992").decode.same (Value.number "9007199254740992.0").decode
        = true := by
  have hlt : (Value.number "9007199254740992.0").decode.compare
      (Value.number "9007199254740993").decode = some .lt := by
    decide +kernel
  have hsame : (Value.number "9007199254740992").decode.compare
      (Value.number "9007199254740992.0").decode = some .eq := by
    decide +kernel
  have hint : Number.read "9007199254740993" = .int 9007199254740993 := by decide +kernel
  have hfloat : Number.read "9007199254740992.0"
      = .float (Number.readFloat "9007199254740992.0".toList) := by
    decide +kernel
  obtain ⟨_, hparts, _⟩ := compare_exact (Value.number "9007199254740993").decode
    (Value.number "9007199254740992.0").decode
  obtain ⟨_, _, _, htrans, heq⟩ := compare_exact (Value.number "9007199254740992").decode
    (Value.number "9007199254740992.0").decode
  exact ⟨hparts _ _ (congrArg Decoded.number hint) (congrArg Decoded.number hfloat) (by decide),
    htrans _ _ _ hsame hlt (by decide) (by decide), (heq _ hsame).mp rfl⟩

end Decoded

end ItemStore
