import ItemStore.Proofs.IntegerTexts
import ItemStore.Proofs.Sameness

/-!
# Encoding what was decoded

A decoded value is spelled again with each number in its shortest form.  The spelling may be read
differently from the one that the client wrote: `5.0` is spelled `5`, which is an integer.  Up to
`2 ^ 53` that is the same number.  Past it the shortest digits are filled up with zeros, and the
integer that they make need not be the number: `9007199254740992.0`, which is `2 ^ 53`, comes back
as it was, but `1152921504606846976.0`, which is `2 ^ 60`, comes back as `1152921504606847000`.
From `2 ^ 63` on the digits are no integer of 64 bits, and the number is read as before.

* `Binary64.InDoubt` — the numbers in between.
* `Number.same_read_text_of_not_inDoubt` — a number that is not among them is the same when it is
  read again.
* `Number.read_text_of_inDoubt` — from the text of one that is, its shortest decimal is read.
* **`Number.same_read_text_iff`** — which numbers are the same when they are read again.
* `Decoded.same_decode_encode_iff` — a value is the same again if its numbers are.
* **`Decoded.same_decode_encode`** — which values are the same when they have been encoded and
  decoded again.
-/

namespace ItemStore

/-! ## Numbers -/

namespace Binary64

/-- The numbers of `2 ^ 53` and more that are below `2 ^ 63`, in either direction.  All are
integers, and their texts are read as integers that may be others. -/
def InDoubt (f : Binary64) : Prop :=
  ∃ x : ℚ, f.value? = some (.ofRat x) ∧ 2 ^ 53 ≤ |x| ∧ |x| < 2 ^ 63

variable {negative : Bool} {rank : Fin (infinityRank + 1)}

lemma value?_of_lt (negative : Bool) (h : rank.val < infinityRank) :
    value? (.signed negative rank)
      = some (.ofRat (if negative then -magnitude rank else magnitude rank)) := by
  rw [value?, if_neg h.ne]

lemma inDoubt_iff :
    InDoubt (.signed negative rank) ↔ rankOfTwoPow 53 ≤ rank.val ∧ rank.val < rankOfTwoPow 63 := by
  have hlo : (2 : ℚ) ^ 53 ≤ magnitude rank ↔ rankOfTwoPow 53 ≤ rank.val := by
    rw [← magnitude_rankOfTwoPow 53, magnitude_strictMono.le_iff_le]
  have hhi : magnitude rank < (2 : ℚ) ^ 63 ↔ rank.val < rankOfTwoPow 63 := by
    rw [← magnitude_rankOfTwoPow 63, magnitude_strictMono.lt_iff_lt]
  rw [← hlo, ← hhi]
  constructor
  · rintro ⟨x, hx, hbounds⟩
    obtain ⟨_, _, hf, hvalue⟩ := value?_eq_ofRat hx
    cases hf
    rwa [abs_eq_magnitude hvalue] at hbounds
  · intro hbounds
    have hfinite : rank.val < infinityRank := (hhi.mp hbounds.2).trans (by decide)
    refine ⟨_, value?_of_lt negative hfinite, ?_⟩
    rwa [abs_eq_magnitude rfl]

/-- Numbers in doubt are integers. -/
lemma exists_natCast_of_inDoubt (h : InDoubt (.signed negative rank)) :
    ∃ n : ℕ, magnitude rank = n ∧ n < 2 ^ 63 := by
  obtain ⟨hlo, hhi⟩ := inDoubt_iff.mp h
  have hunit : 0 ≤ unitExponent rank := by
    rw [rankOfTwoPow] at hlo
    rw [unitExponent, if_neg (by omega)]
    omega
  obtain ⟨k, hk⟩ := Int.eq_ofNat_of_zero_le hunit
  have hmagnitude : magnitude rank = (significand rank * 2 ^ k : ℕ) := by
    rw [magnitude_eq, hk]
    push_cast
    rw [zpow_natCast]
  refine ⟨_, hmagnitude, ?_⟩
  have hbelow := magnitude_strictMono hhi
  rw [hmagnitude, magnitude_rankOfTwoPow] at hbelow
  exact_mod_cast hbelow

/-- What is rounded to a number below `2 ^ 63` is below it, too. -/
lemma lt_of_rankOf_lt {n : ℕ} (h : rankOf n < rankOfTwoPow 63) : n < 2 ^ 63 := by
  by_contra hlarge
  have hle : magnitude (rankOfTwoPow 63) ≤ n := by
    rw [magnitude_rankOfTwoPow]
    exact_mod_cast not_lt.mp hlarge
  have hround := rankOf_mono (magnitude_nonneg _) hle
  rw [rankOf_magnitude (by decide)] at hround
  exact h.not_ge hround

end Binary64

namespace Number

open Binary64

lemma fitsInt_of_read {text : String} {i : ℤ} (h : read text = .int i) : fitsInt i = true := by
  rw [read] at h
  split at h
  · rename_i hinteger
    cases h
    exact (Option.filter_eq_some_iff.mp hinteger).2
  · cases h

/-- The numbers at the upper end are spelled with digits past it. -/
lemma read_text_two_pow_63 (negative : Bool) :
    read (Binary64.text (.signed negative ⟨rankOfTwoPow 63, by decide⟩))
      = .float (.signed negative ⟨rankOfTwoPow 63, by decide⟩) := by
  cases negative <;> decide +kernel

/-- A number that is not in doubt is the same when its text is read.  The text may be an integer.
Below `2 ^ 53` this can only be the number itself, and at `2 ^ 63` it would be too large. -/
lemma same_read_text_of_not_inDoubt {f : Binary64} (hvalue : f.value?.isSome = true)
    (h : ¬ f.InDoubt) : (read f.text).same (.float f) = true := by
  rcases read_text_float f with hread | ⟨i, hread, hfits, hrounds⟩
  · rw [hread, same_self_iff]
    exact hvalue
  · obtain ⟨negative, rank, rfl, hfinite, _⟩ := id hrounds
    have hsmall : rank.val < rankOfTwoPow 53 := by
      by_contra hlarge
      rw [inDoubt_iff, not_and_or] at h
      have hi : |(i : ℚ)| ≤ 2 ^ 63 := by
        rw [fitsInt, Bool.and_eq_true, decide_eq_true_eq, decide_eq_true_eq] at hfits
        exact_mod_cast abs_le.mpr ⟨hfits.1, hfits.2.le⟩
      have hle := hrounds.rank_le hi
      obtain rfl : rank = ⟨rankOfTwoPow 63, by decide⟩ := Fin.ext (by dsimp only; omega)
      rw [read_text_two_pow_63] at hread
      cases hread
    have hx := value?_of_lt negative hfinite
    have habs : |if negative then -magnitude rank else magnitude rank| < 2 ^ 53 := by
      rw [abs_eq_magnitude rfl, ← magnitude_rankOfTwoPow 53]
      exact magnitude_strictMono hsmall
    rw [hread, same_iff]
    exact ⟨_, rfl, by rw [value?, hx, hrounds.eq_of_small hx habs]⟩

/-- The text of a number in doubt is read as an integer: its shortest decimal, behind the sign.
This is a natural, because the number is one, and it is rounded to the number, which is below
`2 ^ 63`. -/
lemma read_text_of_inDoubt {negative : Bool} {rank : Fin (infinityRank + 1)}
    (h : InDoubt (.signed negative rank)) : ∃ m : ℕ, (shortest rank).value = m ∧
      read (Binary64.text (.signed negative rank)) = .int (if negative then -(m : ℤ) else m) := by
  obtain ⟨hlo, hhi⟩ := inDoubt_iff.mp h
  have hzero : rank.val ≠ 0 := ((by decide : 0 < rankOfTwoPow 53).trans_le hlo).ne'
  have hfinite : rank.val < infinityRank := hhi.trans (by decide)
  obtain ⟨n, hn, -⟩ := exists_natCast_of_inDoubt h
  obtain ⟨m, hm⟩ :=
    exists_shortest_eq_natCast hfinite (natCast_pos_of_magnitude_eq hzero hn) hn
  have hround := rankOf_shortest hfinite
  rw [hm] at hround
  have hsmall : m < 2 ^ 63 := lt_of_rankOf_lt (hround ▸ hhi)
  have hpos : 0 < m := by
    have hvalue := shortest_value_pos hzero hfinite
    rw [hm] at hvalue
    exact_mod_cast hvalue
  have hfits : fitsInt (if negative then -(m : ℤ) else m) = true := by
    rw [fitsInt, Bool.and_eq_true, decide_eq_true_eq, decide_eq_true_eq]
    split_ifs <;> omega
  refine ⟨m, hm, ?_⟩
  rw [text_of_shortest_eq_natCast hzero hfinite hpos hm]
  exact read_text_int hfits

/-- A number in doubt is the same when its text is read exactly if its shortest decimal is exact. -/
lemma same_read_text_iff_of_inDoubt {f : Binary64} (h : f.InDoubt) :
    (read f.text).same (.float f) = true ↔ f.SpelledExactly := by
  cases f with
  | nan => obtain ⟨_, hvalue, _⟩ := h; cases hvalue
  | signed negative rank =>
      obtain ⟨m, hm, hread⟩ := read_text_of_inDoubt h
      have hfinite : rank.val < infinityRank := (inDoubt_iff.mp h).2.trans (by decide)
      rw [hread, same_iff, SpelledExactly, hm, value?, value?, value?_of_lt negative hfinite]
      simp only [Option.some.injEq, exists_eq_left', Extended.ofRat_strictMono.injective.eq_iff]
      cases negative <;> simp [eq_comm]

/-- **Which numbers are the same when their texts are read**: all but those in doubt that are not
spelled exactly. -/
theorem same_read_text_iff {f : Binary64} (hvalue : f.value?.isSome = true) :
    (read f.text).same (.float f) = true ↔ (f.InDoubt → f.SpelledExactly) := by
  by_cases hdoubt : f.InDoubt
  · rw [same_read_text_iff_of_inDoubt hdoubt, imp_iff_right hdoubt]
  · exact iff_of_true (same_read_text_of_not_inDoubt hvalue hdoubt) fun h => absurd h hdoubt

end Number

/-! ## Values -/

namespace Decoded

lemma encodeElements_eq : ∀ ds : List Decoded, encodeElements ds = ds.map encode
  | [] => rfl
  | d :: ds => by rw [encodeElements, encodeElements_eq, List.map_cons]

lemma encodeFields_eq : ∀ fs : List (String × Decoded),
    encodeFields fs = fs.map fun f => (f.1, encode f.2)
  | [] => rfl
  | (name, d) :: fs => by rw [encodeFields, encodeFields_eq, List.map_cons]

end Decoded

namespace Value

lemma decode_encode_list (vs : List Value) :
    (Value.list vs).decode.encode = .list (vs.map fun v => v.decode.encode) := by
  rw [decode, Decoded.encode, decodeElements_eq, Decoded.encodeElements_eq, List.map_map]
  rfl

lemma decode_encode_map (fs : List (String × Value)) :
    (Value.map fs).decode.encode = .map (fs.map fun f => (f.1, f.2.decode.encode)) := by
  rw [decode, Decoded.encode, decodeFields_eq, Decoded.encodeFields_eq, List.map_map]
  rfl

end Value

namespace Decoded

open Value

/-- A value is the same when it is encoded and decoded again exactly if each of its numbers is. -/
theorem same_decode_encode_iff {v : Value} :
    v.decode.encode.decode.same v.decode = true ↔
      ∀ n ∈ v.numerals, (Number.read (Number.read n).text).same (Number.read n) = true := by
  induction v using Value.nestedInduction with
  | text s => simp [Value.decode, encode, same, Value.numerals]
  | number n => simp [Value.decode, encode, same, Value.numerals]
  | bool b => simp [Value.decode, encode, same, Value.numerals]
  | null => simp [Value.decode, encode, same, Value.numerals]
  | list vs ih =>
      rw [decode_encode_list, decode, decode, same, sameElements_iff, decodeElements_eq,
        decodeElements_eq, List.map_map, List.forall₂_map_left_iff, List.forall₂_map_right_iff,
        List.forall₂_same, numerals, elementNumerals_eq, List.forall_mem_flatMap]
      exact forall₂_congr ih
  | map fs ih =>
      rw [decode_encode_map, decode, decode, same, sameFields_iff, decodeFields_eq,
        decodeFields_eq, List.map_map, List.forall₂_map_left_iff, List.forall₂_map_right_iff,
        List.forall₂_same, numerals, fieldNumerals_eq, List.forall_mem_flatMap]
      exact forall₂_congr fun f hf => (and_iff_right rfl).trans (ih f hf)

/-- **Which valid values are the same** when they have been encoded and decoded again: those whose
binary64 numbers from `2 ^ 53` to `2 ^ 63` are spelled exactly. -/
theorem same_decode_encode {v : Value} (hv : v.Valid) :
    v.decode.encode.decode.same v.decode = true ↔
      ∀ n ∈ v.numerals, ∀ f, Number.read n = .float f → f.InDoubt → f.SpelledExactly := by
  rw [same_decode_encode_iff]
  refine forall₂_congr fun n hn => ?_
  have hvalue := Number.value?_read_isSome (hv n hn)
  cases hread : Number.read n with
  | int i =>
      rw [Number.read_text_int (Number.fitsInt_of_read hread), Number.same_self_iff]
      simp [Number.value?]
  | float f =>
      rw [hread] at hvalue
      rw [Number.text, Number.same_read_text_iff hvalue]
      simp

/-- One number below `2 ^ 53`, and that power itself, which is spelled with all of its digits. -/
theorem same_decode_encode_sample :
    (Value.list [.number "-2.50e1", .map [("deep", .number "9007199254740992.0")]]).decode.encode
        = .list [.number "-25", .map [("deep", .number "9007199254740992")]] ∧
      (Value.list [.number "-2.50e1",
          .map [("deep", .number "9007199254740992.0")]]).decode.encode.decode.same
        (Value.list [.number "-2.50e1", .map [("deep", .number "9007199254740992.0")]]).decode
          = true := by
  have hsmall : Number.read "-2.50e1" = .float (.signed true ⟨0x4039000000000000, by decide⟩) := by
    decide +kernel
  have hpower : Number.read "9007199254740992.0"
      = .float (.signed false ⟨Binary64.rankOfTwoPow 53, by decide⟩) := by
    decide +kernel
  have hshortest : Binary64.shortest (Binary64.rankOfTwoPow 53) = ⟨9007199254740992, 0⟩ := by
    decide +kernel
  refine ⟨by decide +kernel, (same_decode_encode ?_).mpr ?_⟩
  · simp only [Value.Valid, Value.numerals, Value.elementNumerals, Value.fieldNumerals]
    decide
  · simp only [Value.numerals, Value.elementNumerals, Value.fieldNumerals, List.append_nil,
      List.cons_append, List.nil_append, List.forall_mem_cons, List.not_mem_nil, false_imp_iff,
      implies_true, and_true]
    refine ⟨fun f hf hdoubt => ?_, fun f hf _ => ?_⟩
    · cases hsmall.symm.trans hf
      rw [Binary64.inDoubt_iff] at hdoubt
      exact absurd hdoubt (by decide)
    · cases hpower.symm.trans hf
      rw [Binary64.SpelledExactly, hshortest, Binary64.magnitude_rankOfTwoPow, Decimal.value]
      norm_num

/-- A value with a number in doubt may come back as another: `2 ^ 60` is spelled with zeros behind
its first sixteen digits, and read as the integer with these digits. -/
theorem decode_encode_differs :
    ¬ ∀ v : Value, v.Valid → v.decode.encode.decode.same v.decode = true := by
  intro h
  have hvalid : (Value.number "1152921504606846976.0").Valid := Value.valid_number.mpr (by decide)
  have hdiffer : (Value.number "1152921504606846976.0").decode.encode.decode.same
      (Value.number "1152921504606846976.0").decode = false := by
    decide +kernel
  exact Bool.false_ne_true (hdiffer.symm.trans (h _ hvalid))

end Decoded

end ItemStore
