import ItemStore.Proofs.Agreement
import ItemStore.Proofs.IntegerTexts
import ItemStore.Proofs.RoundTrip

/-!
# One spelling for values that agree

When decoded values are encoded, equal numbers should get one spelling.  The two representations of
a number are written in two ways, though.  These come to the same text for integers below `2 ^ 53`,
and past the integers of 64 bits there is one representation only.  That leaves two exceptions: the
negative zero keeps its sign, and a binary64 number in between is written with zeros behind its
shortest digits, which need not be its own digits.

* `Number.Plain` — a number is spelled like the integer that it is.
* **`Number.plain_float_iff`** — which binary64 numbers are.
* **`Number.text_eq_iff`** — when numbers that are the same have one text.
* **`Number.respell_respell_iff`** — when a number that is read from its text has the same text.
* `Value.Alike.numerals_same` — the numbers in values that agree are the same one by one.
* **`Decoded.encode_canonical`** — which values are encoded alike, and when once is enough.
-/

namespace ItemStore

/-! ## Numbers that are the same -/

lemma Extended.ofRat_intCast_injective : Function.Injective fun i : ℤ => ofRat i :=
  ofRat_strictMono.injective.comp Int.cast_injective

namespace Binary64

/-- Two numbers for one point are one number, but for the two zeros. -/
lemma eq_or_zero_of_value?_eq {f g : Binary64} {x : Extended} (hf : f.value? = some x)
    (hg : g.value? = some x) : f = g ∨ x = .ofRat 0 := by
  match f, g with
  | .nan, _ => cases hf
  | .signed _ _, .nan => cases hg
  | .signed s a, .signed t b =>
      have hzero := hf
      rw [value?_signed] at hf hg
      have hrank := rankPoint_strictMonoOn.injOn (signedRank_mem s a) (signedRank_mem t b)
        (Option.some.inj (hf.trans hg.symm))
      have hcases : s = t ∧ a.val = b.val ∨ a.val = 0 := by
        cases s <;> cases t <;> simp [signedRank] at hrank ⊢ <;> omega
      rcases hcases with ⟨rfl, hab⟩ | ha
      · exact Or.inl (by rw [Fin.ext hab])
      · rw [value?_of_lt s (ha ▸ by decide), ha, magnitude_zero, neg_zero, ite_self] at hzero
        exact Or.inr (Option.some.inj hzero).symm

end Binary64

namespace Number

open Binary64

/-- A number has the text of the integer that it is, if it is one of 64 bits. -/
def Plain (a : Number) : Prop :=
  ∀ i : ℤ, fitsInt i = true → a.value? = some (.ofRat i) → a.text = i.repr

lemma plain_int (i : ℤ) : Plain (.int i) := by
  intro j _ hj
  obtain rfl : i = j := Extended.ofRat_intCast_injective (Option.some.inj hj)
  rfl

lemma not_plain_negativeZero : ¬ Plain (.float negativeZero) := by
  intro h
  have hvalue : value? (.float negativeZero) = some (.ofRat (0 : ℤ)) := by
    rw [value?, negativeZero, value?_of_lt true (by decide)]
    simp
  exact absurd (h 0 (by decide) hvalue) (by decide)

lemma text_float_injective : Function.Injective fun f : Binary64 => text (.float f) := by
  intro f g h
  rw [← readFloat_text f, ← readFloat_text g]
  exact congrArg (fun t : String => readFloat t.toList) h

/-- An integral number has the text of the integer exactly if it is plain. -/
lemma text_float_eq_repr_iff {f : Binary64} {i : ℤ} (hfits : fitsInt i = true)
    (hvalue : f.value? = some (.ofRat i)) : text (.float f) = i.repr ↔ Plain (.float f) := by
  refine ⟨fun htext j _ hj => ?_, fun hplain => hplain i hfits hvalue⟩
  obtain rfl : i = j :=
    Extended.ofRat_intCast_injective (Option.some.inj (hvalue.symm.trans hj))
  exact htext

/-- **Numbers that are the same have one text** if they are one number, or if both are plain. -/
theorem text_eq_iff {a b : Number} (ha : ∀ i, a = .int i → fitsInt i = true)
    (hb : ∀ i, b = .int i → fitsInt i = true) (h : a.same b = true) :
    a.text = b.text ↔ a = b ∨ a.Plain ∧ b.Plain := by
  obtain ⟨x, hx, hy⟩ := same_iff.mp h
  match a, b with
  | .int i, .int j =>
      obtain rfl : i = j := Extended.ofRat_intCast_injective (Option.some.inj (hx.trans hy.symm))
      simp
  | .int i, .float f =>
      cases hx
      rw [eq_comm, text, text_float_eq_repr_iff (ha i rfl) hy]
      simp [plain_int]
  | .float f, .int i =>
      cases hy
      rw [show text (.int i) = i.repr from rfl, text_float_eq_repr_iff (hb i rfl) hx]
      simp [plain_int]
  | .float f, .float g =>
      -- two binary64 numbers have two texts, so only the zeros are left, and one is not plain
      constructor
      · exact fun htext => Or.inl (congrArg Number.float (text_float_injective htext))
      · rintro (heq | ⟨hf, hg⟩)
        · rw [heq]
        · rcases eq_or_zero_of_value?_eq hx hy with rfl | rfl
          · rfl
          · have hzero : some (Extended.ofRat 0) = some (.ofRat (0 : ℤ)) := by rw [Int.cast_zero]
            rw [hf 0 (by decide) (hx.trans hzero), hg 0 (by decide) (hy.trans hzero)]

/-! ## Plain numbers -/

section

variable {negative : Bool} {rank : Fin (infinityRank + 1)} {n : ℕ}

/-- A number in doubt is plain exactly if its shortest decimal is exact. -/
lemma plain_iff_of_inDoubt (h : InDoubt (.signed negative rank)) :
    Plain (.float (.signed negative rank)) ↔ SpelledExactly (.signed negative rank) := by
  obtain ⟨hlo, hhi⟩ := inDoubt_iff.mp h
  have hzero : rank.val ≠ 0 := ((by decide : 0 < rankOfTwoPow 53).trans_le hlo).ne'
  have hfinite : rank.val < infinityRank := hhi.trans (by decide)
  obtain ⟨n, hn, hbelow⟩ := exists_natCast_of_inDoubt h
  have hfits : fitsInt (if negative then -(n : ℤ) else n) = true := by
    rw [fitsInt, Bool.and_eq_true, decide_eq_true_eq, decide_eq_true_eq]
    split_ifs <;> omega
  have hvalue : Binary64.value? (.signed negative rank)
      = some (.ofRat ((if negative then -(n : ℤ) else n : ℤ) : ℚ)) := by
    rw [value?_of_lt negative hfinite, hn]
    push_cast
    rfl
  rw [← text_float_eq_repr_iff hfits hvalue, text, text_eq_repr_iff hzero hfinite hn,
    SpelledExactly]

/-- The least integer of 64 bits is spelled with digits past it as a binary64 number. -/
lemma not_plain_least {f : Binary64} (hvalue : f.value? = some (.ofRat (-2 ^ 63))) :
    ¬ Plain (.float f) := by
  intro hplain
  have hfits : fitsInt (-2 ^ 63) = true := by decide
  have htext : f.text = (-2 ^ 63 : ℤ).repr := hplain _ hfits (hvalue.trans (by norm_num))
  obtain ⟨negative, rank, rfl, hx⟩ := value?_eq_ofRat hvalue
  have habs := abs_eq_magnitude hx
  obtain rfl : rank = ⟨rankOfTwoPow 63, by decide⟩ := by
    refine Fin.ext (magnitude_strictMono.injective ?_)
    rw [← habs, magnitude_rankOfTwoPow]
    norm_num
  have hread := read_text_two_pow_63 negative
  rw [htext] at hread
  cases hread.symm.trans (read_text_int hfits)

end

/-- Integers of 64 bits that are not in doubt are below `2 ^ 53`, but for the least. -/
lemma abs_lt_of_not_inDoubt {f : Binary64} {i : ℤ} (hdoubt : ¬ f.InDoubt)
    (hend : f.value? ≠ some (.ofRat (-2 ^ 63))) (hvalue : f.value? = some (.ofRat i))
    (hfits : fitsInt i = true) : i.natAbs < 2 ^ 53 := by
  have hleast : i ≠ -2 ^ 63 := by
    rintro rfl
    exact hend (by exact_mod_cast hvalue)
  rw [fitsInt, Bool.and_eq_true, decide_eq_true_eq, decide_eq_true_eq] at hfits
  have hcast : |(i : ℚ)| = (i.natAbs : ℕ) := by simp
  by_contra hlarge
  refine hdoubt ⟨i, hvalue, ?_, ?_⟩
  · rw [hcast]
    exact_mod_cast not_lt.mp hlarge
  · have hbelow : i.natAbs < 2 ^ 63 := by omega
    rw [hcast]
    exact_mod_cast hbelow

/-- All but the negative zero, the ones in doubt, and the least integer of 64 bits are plain. -/
lemma plain_of_not_inDoubt {f : Binary64} (hzero : f ≠ negativeZero) (hdoubt : ¬ f.InDoubt)
    (hend : f.value? ≠ some (.ofRat (-2 ^ 63))) : Plain (.float f) := by
  intro i hfits hvalue
  have hsmall := abs_lt_of_not_inDoubt hdoubt hend hvalue hfits
  obtain ⟨negative, rank, rfl, hi⟩ := value?_eq_ofRat hvalue
  have habs : magnitude rank = (i.natAbs : ℕ) := by
    rw [← abs_eq_magnitude hi, Nat.cast_natAbs, Int.cast_abs]
  generalize i.natAbs = n at hsmall habs
  obtain rfl : i = if negative then -(n : ℤ) else n := by
    rw [habs] at hi
    exact_mod_cast hi
  by_cases hrank : rank = 0
  · subst hrank
    obtain rfl : n = 0 := by
      rw [Fin.val_zero, magnitude_zero] at habs
      exact_mod_cast habs.symm
    cases negative with
    | true => exact absurd rfl hzero
    | false => rfl
  · have hrank' : rank.val ≠ 0 := fun h0 => hrank (Fin.ext h0)
    have hfinite : rank.val < infinityRank := by
      have hlt : magnitude rank < magnitude (rankOfTwoPow 53) := by
        rw [magnitude_rankOfTwoPow, habs]
        exact_mod_cast hsmall
      exact (magnitude_strictMono.lt_iff_lt.mp hlt).trans (by decide)
    exact (text_eq_repr_iff hrank' hfinite habs).mpr (shortest_exact hrank' hsmall hfinite habs)

/-- **Which numbers are plain**: all but the negative zero, the least integer of 64 bits, and those
in doubt that are not spelled exactly. -/
theorem plain_float_iff {f : Binary64} : Plain (.float f) ↔
    f ≠ negativeZero ∧ f.value? ≠ some (.ofRat (-2 ^ 63)) ∧ (f.InDoubt → f.SpelledExactly) := by
  constructor
  · intro h
    refine ⟨fun hzero => not_plain_negativeZero (hzero ▸ h), fun hend => not_plain_least hend h,
      fun hdoubt => ?_⟩
    cases f with
    | nan => obtain ⟨_, hvalue, _⟩ := hdoubt; cases hvalue
    | signed negative rank => exact (plain_iff_of_inDoubt hdoubt).mp h
  · rintro ⟨hzero, hend, hexact⟩
    by_cases hdoubt : f.InDoubt
    · cases f with
      | nan => exact (hexact hdoubt).elim
      | signed negative rank => exact (plain_iff_of_inDoubt hdoubt).mpr (hexact hdoubt)
    · exact plain_of_not_inDoubt hzero hdoubt hend

/-! ## Reading a text again -/

/-- The text that a number gets in place of the one it is read from. -/
def respell (t : String) : String := (read t).text

/-- **A text that a number got is kept when the number is read from it again**, except for the one
of the negative zero, which becomes an integer. -/
theorem respell_respell_iff {t : String} :
    respell (respell t) = respell t ↔ read t ≠ .float .negativeZero := by
  rw [respell, respell]
  constructor
  · intro h hzero
    rw [hzero] at h
    exact absurd h (by decide)
  · intro hzero
    cases hread : read t with
    | int i => rw [read_text_int (fitsInt_of_read hread)]
    | float f =>
        rw [text, read]
        split
        · rename_i i hi
          have hf : f ≠ negativeZero := fun hf => hzero (by rw [hread, hf])
          exact (text_eq_repr_of_integer? hf (Option.filter_eq_some_iff.mp hi).1).symm
        · rw [readFloat_text, text]

end Number

/-! ## Values -/

section

variable {α β γ : Type} {S : α → α → Prop} {as bs : List α}

/-- What is true of partners may be used to replace one relation of them by another. -/
lemma forall₂_iff_of_forall₂ {P Q : α → α → Prop} (h : List.Forall₂ S as bs)
    (hiff : ∀ a b, S a b → (P a b ↔ Q a b)) : List.Forall₂ P as bs ↔ List.Forall₂ Q as bs := by
  induction h with
  | nil => simp
  | cons hab _ ih => rw [List.forall₂_cons, List.forall₂_cons, hiff _ _ hab, ih]

lemma forall₂_flatMap_of_mem {R : β → β → Prop} {f : α → List β} (h : List.Forall₂ S as bs)
    (step : ∀ a ∈ as, ∀ b, S a b → List.Forall₂ R (f a) (f b)) :
    List.Forall₂ R (as.flatMap f) (bs.flatMap f) := by
  induction h with
  | nil => exact .nil
  | cons hab _ ih =>
      rw [List.forall_mem_cons] at step
      exact List.rel_append (step.1 _ hab) (ih step.2)

/-- Partners have equal images if the parts of their images, as long as each other, are equal. -/
lemma map_eq_map_iff_flatMap {g : α → β} {f : α → List γ} (h : List.Forall₂ S as bs)
    (step : ∀ a ∈ as, ∀ b, S a b → (f a).length = (f b).length ∧ (g a = g b ↔ f a = f b)) :
    as.map g = bs.map g ↔ as.flatMap f = bs.flatMap f := by
  induction h with
  | nil => simp
  | cons hab _ ih =>
      rw [List.forall_mem_cons] at step
      obtain ⟨hlength, hhead⟩ := step.1 _ hab
      rw [List.map_cons, List.map_cons, List.flatMap_cons, List.flatMap_cons, List.cons.injEq,
        hhead, ih step.2]
      exact ⟨fun ⟨h, hrest⟩ => by rw [h, hrest], fun h => List.append_inj h hlength⟩

end

namespace Value

/-- **Values that agree have the same numbers** at the same places. -/
theorem Alike.numerals_same {v : Value} : ∀ {w : Value}, v.Alike w →
    List.Forall₂ (fun m n => (Number.read m).same (Number.read n) = true)
      v.numerals w.numerals := by
  induction v using Value.nestedInduction with
  | text s => intro w h; cases w <;> first | exact .nil | cases h
  | number n =>
      intro w h
      cases w <;> first | exact .cons h .nil | cases h
  | bool b => intro w h; cases w <;> first | exact .nil | cases h
  | null => intro w h; cases w <;> first | exact .nil | cases h
  | list vs ih =>
      intro w h
      cases w <;> try cases h
      rename_i ws
      rw [numerals, numerals, elementNumerals_eq, elementNumerals_eq]
      exact forall₂_flatMap_of_mem (agrees_list.mp h) fun v hv _ hw => ih v hv hw
  | map fs ih =>
      intro w h
      cases w <;> try cases h
      rename_i gs
      rw [numerals, numerals, fieldNumerals_eq, fieldNumerals_eq]
      exact forall₂_flatMap_of_mem (agrees_map.mp h) fun f hf _ hg => ih f hf hg.2

/-- Values that agree are encoded alike exactly if their numbers get the same texts. -/
theorem Alike.encode_eq_iff {v : Value} : ∀ {w : Value}, v.Alike w →
    (v.decode.encode = w.decode.encode ↔
      v.numerals.map Number.respell = w.numerals.map Number.respell) := by
  induction v using Value.nestedInduction with
  | text s =>
      intro w h
      cases w <;> try cases h
      rename_i s'
      simp only [Alike, agrees, decode, Decoded.same, beq_iff_eq] at h
      rw [h]
      simp
  | number n =>
      intro w h
      cases w <;> try cases h
      simp [decode, Decoded.encode, numerals, Number.respell]
  | bool b =>
      intro w h
      cases w <;> try cases h
      rename_i b'
      simp only [Alike, agrees, decode, Decoded.same, beq_iff_eq] at h
      rw [h]
      simp
  | null =>
      intro w h
      cases w <;> try cases h
      simp
  | list vs ih =>
      intro w h
      cases w <;> try cases h
      rename_i ws
      rw [decode_encode_list, decode_encode_list, Value.list.injEq, numerals, numerals,
        elementNumerals_eq, elementNumerals_eq, List.map_flatMap, List.map_flatMap]
      refine map_eq_map_iff_flatMap (agrees_list.mp h) fun v hv w hw => ⟨?_, ih v hv hw⟩
      rw [List.length_map, List.length_map, hw.numerals_same.length_eq]
  | map fs ih =>
      intro w h
      cases w <;> try cases h
      rename_i gs
      rw [decode_encode_map, decode_encode_map, Value.map.injEq, numerals, numerals,
        fieldNumerals_eq, fieldNumerals_eq, List.map_flatMap, List.map_flatMap]
      refine map_eq_map_iff_flatMap (agrees_map.mp h) fun f hf g hg => ⟨?_, ?_⟩
      · rw [List.length_map, List.length_map, hg.2.numerals_same.length_eq]
      · rw [Prod.mk.injEq, and_iff_right hg.1]
        exact ih f hf hg.2

/-- Encoding a value again leaves it alone exactly if reading each of its numbers again does. -/
theorem encode_again_iff {v : Value} :
    v.decode.encode.decode.encode = v.decode.encode ↔
      ∀ n ∈ v.numerals, Number.respell (Number.respell n) = Number.respell n := by
  induction v using Value.nestedInduction with
  | text s => simp [decode, Decoded.encode, numerals]
  | number n => simp [decode, Decoded.encode, numerals, Number.respell]
  | bool b => simp [decode, Decoded.encode, numerals]
  | null => simp [decode, Decoded.encode, numerals]
  | list vs ih =>
      rw [decode_encode_list, decode_encode_list, Value.list.injEq, List.map_map, List.map_inj_left,
        numerals, elementNumerals_eq, List.forall_mem_flatMap]
      exact forall₂_congr ih
  | map fs ih =>
      rw [decode_encode_map, decode_encode_map, Value.map.injEq, List.map_map, List.map_inj_left,
        numerals, fieldNumerals_eq, List.forall_mem_flatMap]
      refine forall₂_congr fun f hf => Iff.trans ?_ (ih f hf)
      rw [Function.comp_apply, Prod.mk.injEq, and_iff_right rfl]

end Value

namespace Decoded

open Value

/-- **Where encoding is canonical.**  Values that agree are encoded alike exactly if their numbers,
one by one, are read alike or are plain.  What has been encoded stays as it is when it is decoded
and encoded again exactly if no number of the value was read as the negative zero.  Integers are
plain, and binary64 numbers are but for the negative zero, the least integer of 64 bits, and those
from `2 ^ 53` to `2 ^ 63` whose shortest decimals are not exact. -/
theorem encode_canonical (v w : Value) :
    (v.agrees w = true →
      (v.decode.encode = w.decode.encode ↔
        List.Forall₂ (fun m n => Number.read m = Number.read n ∨
          (Number.read m).Plain ∧ (Number.read n).Plain) v.numerals w.numerals)) ∧
    (v.decode.encode.decode.encode = v.decode.encode ↔
      ∀ n ∈ v.numerals, Number.read n ≠ .float .negativeZero) ∧
    (∀ i, (Number.int i).Plain) ∧
    ∀ f : Binary64, (Number.float f).Plain ↔
      f ≠ .negativeZero ∧ f.value? ≠ some (.ofRat (-2 ^ 63)) ∧ (f.InDoubt → f.SpelledExactly) := by
  refine ⟨fun h => ?_, ?_, Number.plain_int, fun f => Number.plain_float_iff⟩
  · rw [Alike.encode_eq_iff h, ← List.forall₂_eq_eq_eq, List.forall₂_map_left_iff,
      List.forall₂_map_right_iff]
    exact forall₂_iff_of_forall₂ (Alike.numerals_same h) fun m n hsame =>
      Number.text_eq_iff (fun _ => Number.fitsInt_of_read) (fun _ => Number.fitsInt_of_read) hsame
  · rw [encode_again_iff]
    exact forall₂_congr fun n _ => Number.respell_respell_iff

/-- A list in two spellings, the first number in either representation. -/
theorem encode_canonical_sample :
    (Value.list [.number "5.0", .map [("half", .number ".50")]]).decode.encode
        = (Value.list [.number "5", .map [("half", .number "50e-2")]]).decode.encode ∧
      (Value.list [.number "5.0", .map [("half", .number ".50")]]).decode.encode.decode.encode
        = (Value.list [.number "5.0", .map [("half", .number ".50")]]).decode.encode := by
  obtain ⟨halike, hagain, hint, hfloat⟩ := encode_canonical
    (.list [.number "5.0", .map [("half", .number ".50")]])
    (.list [.number "5", .map [("half", .number "50e-2")]])
  have hpoint : Number.read "5.0" = .float (.signed false ⟨0x4014000000000000, by decide⟩) := by
    decide +kernel
  have hhalf : Number.read ".50" = Number.read "50e-2" := by decide +kernel
  have hfive : Number.read "5" = .int 5 := by decide +kernel
  have hplain : (Number.read "5.0").Plain := by
    rw [hpoint, hfloat]
    refine ⟨by decide, ?_, ?_⟩
    · rw [Binary64.value?_of_lt false (by decide)]
      intro h
      have hmag := Extended.ofRat_strictMono.injective (Option.some.inj h)
      have hnonneg := Binary64.magnitude_nonneg 0x4014000000000000
      simp only [Bool.false_eq_true, if_false] at hmag
      linarith
    · rw [Binary64.inDoubt_iff]
      exact fun hdoubt => absurd hdoubt (by decide)
  refine ⟨(halike (by decide +kernel)).mpr ?_, hagain.mpr ?_⟩
  · simp only [numerals, elementNumerals, fieldNumerals, List.append_nil, List.cons_append,
      List.nil_append]
    exact .cons (.inr ⟨hplain, hfive ▸ hint 5⟩) (.cons (.inl hhalf) .nil)
  · simp only [numerals, elementNumerals, fieldNumerals]
    decide +kernel

/-- The two zeros agree and keep two spellings, and the one of the negative zero does not last. -/
theorem encode_differs :
    (¬ ∀ v w : Value, v.Valid → w.Valid → v.agrees w = true →
        v.decode.encode = w.decode.encode) ∧
      ¬ ∀ v : Value, v.Valid → v.decode.encode.decode.encode = v.decode.encode := by
  have hnegative : (Value.number "-0.0").Valid := valid_number.mpr (by decide)
  have hzero : (Value.number "0").Valid := valid_number.mpr (by decide)
  have hencode : (Value.number "-0.0").decode.encode = .number "-0" := by decide +kernel
  have hencode' : (Value.number "0").decode.encode = .number "0" := by decide +kernel
  refine ⟨fun h => ?_, fun h => ?_⟩
  · have heq := h _ _ hnegative hzero (by decide +kernel)
    rw [hencode, hencode', Value.number.injEq] at heq
    exact absurd heq (by decide)
  · have heq := h _ hnegative
    rw [hencode] at heq
    exact absurd heq (by decide +kernel)

end Decoded

end ItemStore
