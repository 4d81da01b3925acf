import ItemStore.Proofs.AlikeItems
import ItemStore.Proofs.RoundTrip
import ItemStore.Proofs.StoredItems

/-!
# The order of numerals

A numeral denotes a rational, and its spelling settles how it is read: a plain integer of 64 bits as
itself, everything else as the nearest binary64 number.  Either way of reading keeps the order of
the rationals.  Side by side the two keep it where a binary64 number lies between the rationals, or
is one of them.  Rounding may take a rational past an integer that is none: `9007199254740993` comes
after `9007199254740993.0`.

* `Numeral.value` — the rational that a numeral denotes.
* `Binary64.nearest` — the point that a rational is rounded to.  `Binary64.nearest_mono` — rounding
  keeps the order.
* `Binary64.Exact`, `Binary64.Between` — what rounding leaves alone, and where it does not reach
  past.  `Binary64.exact_of_natAbs_le` — integers up to `2 ^ 53` are exact.
* `Number.read_cases` — the two ways in which a numeral is read.
* **`Number.exact_iff_same`** — the integers that are binary64 numbers are those whose spellings
  all read the same.
* **`Store.gets_of_alike`** — alike keys find the same item.
* **`Number.order_of_numerals`** — numerals are in the order of what they denote.
-/

namespace ItemStore

/-! ## What numerals denote -/

namespace Numeral

/-- The rational that a numeral denotes. -/
def value (n : Numeral) : ℚ := if n.negative then -n.size else n.size

lemma size_nonneg (n : Numeral) : 0 ≤ n.size := by
  rw [size]
  positivity

/-- A text that is read as an integer is a numeral that denotes it. -/
lemma exists_read?_of_integer? {text : List Char} {i : ℤ} (h : integer? text = some i) :
    ∃ n, read? text = some n ∧ n.value = i := by
  rw [integer?] at h
  rcases hsplit : splitSign text with ⟨negative, digits⟩
  cases hnatural : natural? digits with
  | none =>
      simp only [hsplit, hnatural] at h
      cases h
  | some k =>
      simp only [hsplit, hnatural] at h
      obtain rfl := Option.some.inj h
      rw [natural?] at hnatural
      split_ifs at hnatural with hempty hall
      obtain rfl := Option.some.inj hnatural
      have hne : digits ≠ [] := by simpa using hempty
      refine ⟨_, read?_digits hsplit hne (List.all_eq_true.mp hall), ?_⟩
      cases negative <;> simp [value, size]

end Numeral

/-! ## Rounding rationals -/

namespace Binary64

/-- The point of the binary64 number nearest to a rational. -/
def nearest (q : ℚ) : Extended :=
  rankPoint (signedRank (decide (q < 0)) (rankOf |q|))

/-- The sign goes through rounding.  Zero is zero with either sign. -/
lemma nearest_withSign (negative : Bool) {m : ℚ} (hm : 0 ≤ m) :
    nearest (if negative then -m else m) = rankPoint (signedRank negative (rankOf m)) := by
  rcases hm.eq_or_lt with rfl | hpos
  · have hzero : rankOf 0 = 0 := by
      rw [← magnitude_zero, rankOf_magnitude (Nat.zero_le _)]
    cases negative <;> simp [nearest, signedRank, hzero]
  · cases negative <;> simp [nearest, signedRank, hpos, hpos.not_gt, abs_of_pos]

/-- **Rounding keeps the order**, across zero and up to the infinities. -/
theorem nearest_mono : Monotone nearest := by
  intro p q hle
  have hmem : ∀ x : ℚ, signedRank (decide (x < 0)) (rankOf |x|)
      ∈ Set.Icc (-(infinityRank : ℤ)) infinityRank := fun x =>
    signedRank_mem _ ⟨rankOf |x|, Nat.lt_succ_of_le (rankOf_le _)⟩
  refine rankPoint_strictMonoOn.monotoneOn (hmem p) (hmem q) ?_
  rcases lt_or_ge q 0 with hq | hq
  · have hp := hle.trans_lt hq
    have hrank := rankOf_mono (abs_nonneg q) (abs_le_abs_of_nonpos hq.le hle)
    simpa [signedRank, hp, hq] using hrank
  · rcases lt_or_ge p 0 with hp | hp
    · simp only [signedRank, hp, hq.not_gt, decide_true, decide_false, if_true, if_false,
        Bool.false_eq_true]
      omega
    · have hrank := rankOf_mono (abs_nonneg p) (abs_le_abs_of_nonneg hp hle)
      simpa [signedRank, not_lt.mpr hp, not_lt.mpr hq] using hrank

/-- A numeral that is rounded stands for the point that its rational is rounded to. -/
lemma value?_ofNumeral (n : Numeral) : (ofNumeral n).value? = some (nearest n.value) := by
  rw [ofNumeral_eq, value?_signed, Numeral.value, nearest_withSign _ n.size_nonneg]

/-! ### Rationals that are binary64 numbers -/

/-- A rational that is a binary64 number itself. -/
def Exact (q : ℚ) : Prop := ∃ f : Binary64, f.value? = some (.ofRat q)

/-- Such a rational is rounded to itself. -/
lemma Exact.nearest_eq {q : ℚ} (h : Exact q) : nearest q = .ofRat q := by
  obtain ⟨f, hf⟩ := h
  obtain ⟨negative, rank, rfl, hsign⟩ := value?_eq_ofRat hf
  rw [value?_signed] at hf
  calc nearest q = rankPoint (signedRank negative (rankOf (magnitude rank))) := by
        rw [hsign, nearest_withSign negative (magnitude_nonneg _)]
    _ = rankPoint (signedRank negative rank) := by
        rw [rankOf_magnitude (Nat.lt_succ_iff.mp rank.isLt)]
    _ = .ofRat q := Option.some.inj hf

/-- A binary64 number lies between two rationals, or is one of them. -/
def Between (p q : ℚ) : Prop := ∃ x, Exact x ∧ p ≤ x ∧ x ≤ q

lemma Between.le {p q : ℚ} (h : Between p q) : p ≤ q :=
  let ⟨_, _, hpx, hxq⟩ := h
  hpx.trans hxq

lemma Between.ofRat_le_nearest {p q : ℚ} (h : Between p q) : .ofRat p ≤ nearest q := by
  obtain ⟨x, hx, hpx, hxq⟩ := h
  calc Extended.ofRat p ≤ .ofRat x := Extended.ofRat_strictMono.monotone hpx
    _ = nearest x := hx.nearest_eq.symm
    _ ≤ nearest q := nearest_mono hxq

lemma Between.nearest_le_ofRat {p q : ℚ} (h : Between p q) : nearest p ≤ .ofRat q := by
  obtain ⟨x, hx, hpx, hxq⟩ := h
  calc nearest p ≤ nearest x := nearest_mono hpx
    _ = .ofRat x := hx.nearest_eq
    _ ≤ .ofRat q := Extended.ofRat_strictMono.monotone hxq

/-- An integer by its sign and size. -/
lemma intCast_eq_withSign (i : ℤ) :
    (i : ℚ) = if decide (i < 0) then -(i.natAbs : ℚ) else i.natAbs := by
  rw [Nat.cast_natAbs]
  rcases lt_or_ge i 0 with hi | hi
  · simp [hi, abs_of_neg hi]
  · simp [hi.not_gt, abs_of_nonneg hi]

/-- Integers of at most 53 bits, and `2 ^ 53`, are binary64 numbers. -/
theorem exact_of_natAbs_le {i : ℤ} (h : i.natAbs ≤ 2 ^ 53) : Exact i := by
  obtain ⟨rank, hrank⟩ : ∃ rank, magnitude rank = i.natAbs := by
    rcases h.lt_or_eq with hlt | heq
    · exact exists_magnitude_eq_natCast hlt
    · exact ⟨rankOfTwoPow 53, by rw [magnitude_rankOfTwoPow, heq]; norm_num⟩
  have hfinite : rank < infinityRank := by
    rw [← magnitude_strictMono.lt_iff_lt, ← rankOfTwoPow_1024, magnitude_rankOfTwoPow, hrank]
    calc (i.natAbs : ℚ) ≤ 2 ^ 53 := by exact_mod_cast h
      _ < 2 ^ 1024 := by gcongr <;> norm_num
  refine ⟨.signed (decide (i < 0)) ⟨rank, hfinite.trans (Nat.lt_succ_self _)⟩, ?_⟩
  rw [value?_of_lt _ hfinite, hrank, ← intCast_eq_withSign]

end Binary64

/-! ## Reading numerals -/

namespace Number

open Binary64

variable {x y : String} {m n : Numeral} {i : ℤ}

/-- **A numeral is read in one of two ways**: as the integer that it denotes, or as the number that
this is rounded to. -/
theorem read_cases (hx : Numeral.read? x.toList = some m) :
    (∃ i : ℤ, read x = .int i ∧ m.value = i) ∨
      ∃ f, read x = .float f ∧ f.value? = some (nearest m.value) := by
  rw [read]
  split
  · rename_i i hi
    obtain ⟨n, hn, hvalue⟩ :=
      Numeral.exists_read?_of_integer? (Option.filter_eq_some_iff.mp hi).1
    obtain rfl : m = n := Option.some.inj (hx.symm.trans hn)
    exact .inl ⟨i, rfl, hvalue⟩
  · exact .inr ⟨_, rfl, by rw [readFloat, hx, value?_ofNumeral]⟩

/-- Every integer has a spelling that is rounded: with a point behind it. -/
lemma exists_rounded_spelling (i : ℤ) :
    ∃ x m f, Numeral.read? x.toList = some m ∧ m.value = i ∧ read x = .float f := by
  have hdigits : ∀ c ∈ Nat.toDigits 10 i.natAbs, c.isDigit = true := fun c hc =>
    Nat.isDigit_of_mem_toDigits (by norm_num) le_rfl hc
  have hspells : Spells (Nat.toDigits 10 i.natAbs ++ ['.']) _ :=
    .point Nat.toDigits_ne_nil (List.forall_mem_append.mpr ⟨hdigits, by simp⟩)
  obtain ⟨m, hm, hnegative, hsize⟩ := hspells.read?_withSign (decide (i < 0))
  refine ⟨String.ofList _, m, ofNumeral m, by rw [String.toList_ofList, hm], ?_, ?_⟩
  · rw [Numeral.value, hnegative, hsize, intCast_eq_withSign]
    simp
  · rw [read, String.toList_ofList, Numeral.integer?_point _ Nat.toDigits_ne_nil hdigits,
      Option.filter_none]
    simp only [readFloat, hm]

/-- **The integers that are binary64 numbers are those whose spellings all read the same.** -/
theorem exact_iff_same :
    Exact i ↔ ∀ (x : String) (m : Numeral), Numeral.read? x.toList = some m → m.value = i →
      (read x).same (.int i) = true := by
  constructor
  · intro hexact x m hx hvalue
    rw [same_iff]
    rcases read_cases hx with ⟨j, hread, hj⟩ | ⟨f, hread, hf⟩
    · obtain rfl : j = i := by exact_mod_cast hj.symm.trans hvalue
      exact ⟨_, by rw [hread]; rfl, rfl⟩
    · refine ⟨.ofRat i, ?_, rfl⟩
      rw [hread, value?, hf, hvalue, hexact.nearest_eq]
  · intro h
    obtain ⟨x, m, f, hx, hvalue, hread⟩ := exists_rounded_spelling i
    obtain ⟨a, ha, hi⟩ := same_iff.mp (h x m hx hvalue)
    rw [hread] at ha
    exact ⟨f, ha.trans hi.symm⟩

/-! ## Order -/

/-- Both are integers, or both are binary64 numbers. -/
def SameKind (a b : Number) : Prop := (∃ i, a = .int i) ↔ ∃ i, b = .int i

/-- What numerals stand for is in the order of what they denote. -/
lemma value?_le_of_value_le (hx : Numeral.read? x.toList = some m)
    (hy : Numeral.read? y.toList = some n) (hle : m.value ≤ n.value)
    (h : SameKind (read x) (read y) ∨ Between m.value n.value) :
    ∃ a b, (read x).value? = some a ∧ (read y).value? = some b ∧ a ≤ b := by
  rcases read_cases hx with ⟨i, hi, hm⟩ | ⟨f, hf, hm⟩ <;>
    rcases read_cases hy with ⟨j, hj, hn⟩ | ⟨g, hg, hn⟩
  case inl.inl =>
    rw [hi, hj]
    rw [hm, hn] at hle
    exact ⟨_, _, rfl, rfl, Extended.ofRat_strictMono.monotone hle⟩
  case inl.inr =>
    rw [hi, hg] at h ⊢
    have hbetween := h.resolve_left (by simp [SameKind])
    rw [hm] at hbetween
    exact ⟨_, _, rfl, hn, hbetween.ofRat_le_nearest⟩
  case inr.inl =>
    rw [hf, hj] at h ⊢
    have hbetween := h.resolve_left (by simp [SameKind])
    rw [hn] at hbetween
    exact ⟨_, _, hm, rfl, hbetween.nearest_le_ofRat⟩
  case inr.inr =>
    rw [hf, hg]
    exact ⟨_, _, hm, hn, nearest_mono hle⟩

lemma compare_of_value_le (hx : Numeral.read? x.toList = some m)
    (hy : Numeral.read? y.toList = some n) (hle : m.value ≤ n.value)
    (h : SameKind (read x) (read y) ∨ Between m.value n.value) :
    (read x).compare (read y) = some .lt ∨ (read x).compare (read y) = some .eq := by
  obtain ⟨a, b, ha, hb, hab⟩ := value?_le_of_value_le hx hy hle h
  rw [compare_eq, ha, hb, Option.map₂_some_some, Option.some.injEq, Option.some.injEq,
    cmp_eq_lt_iff, cmp_eq_eq_iff, ← le_iff_lt_or_eq]
  exact hab

/-- Numerals of one rational stand for one point, since neither comes after the other. -/
lemma alike_of_value_eq (hx : Numeral.read? x.toList = some m)
    (hy : Numeral.read? y.toList = some n) (heq : m.value = n.value)
    (h : SameKind (read x) (read y) ∨ Between m.value n.value) :
    (Value.number x).Alike (.number y) := by
  have hback : SameKind (read y) (read x) ∨ Between n.value m.value :=
    h.imp Iff.symm fun hbetween => by rwa [heq] at hbetween ⊢
  obtain ⟨a, b, ha, hb, hab⟩ := value?_le_of_value_le hx hy heq.le h
  obtain ⟨b', a', hb', ha', hba⟩ := value?_le_of_value_le hy hx heq.ge hback
  obtain rfl : a = a' := Option.some.inj (ha.symm.trans ha')
  obtain rfl : b = b' := Option.some.inj (hb.symm.trans hb')
  exact same_iff.mpr ⟨a, ha, hab.antisymm hba ▸ hb⟩

end Number

/-! ## Keys that are alike -/

section

variable {a b base : Item} {name : String} {v w : Value}

lemma Item.Valid.insert_of_insert (h : Item.Valid (base.insert name v)) (hw : w.Valid) :
    Item.Valid (base.insert name w) := by
  intro other u hu
  rw [NameMap.get?_insert] at hu
  split_ifs at hu with hname
  · cases hu
    exact hw
  · refine h other u ?_
    rwa [NameMap.get?_insert, if_neg hname]

/-- Items that are valid are alike when they differ in the spelling of one value. -/
lemma Item.alike_insert (h : Item.Valid (base.insert name v)) (hvw : v.Alike w) :
    Item.Alike (base.insert name v) (base.insert name w) := by
  refine (entrywise_iff_lookup (NameMap.ascending _) (NameMap.ascending _)).mpr fun other => ?_
  show Option.Rel _ ((base.insert name v).get? other) ((base.insert name w).get? other)
  have hother := h other
  rw [NameMap.get?_insert] at hother ⊢
  rw [NameMap.get?_insert]
  split_ifs at hother ⊢
  · exact .some hvw
  · cases hget : base.get? other with
    | none => exact .none
    | some u => exact .some (Value.agrees_self (hother u hget))

namespace KeySchema

variable {k : KeySchema} {enforce : Bool}

/-- Under a key attribute alike items have values that agree. -/
lemma HasKey.exists_alike (ha : k.HasKey enforce a) (hab : Item.Alike a b) {part : KeyAttribute}
    (hpart : part ∈ k.attributes) :
    ∃ v w, a.get? part.name = some v ∧ b.get? part.name = some w ∧ v.Alike w ∧
      part.Admits enforce v := by
  obtain ⟨v, hv, hadmits⟩ := ha part hpart
  have hrel := hab.get? part.name
  rw [hv] at hrel
  generalize b.get? part.name = found at hrel ⊢
  cases hrel with
  | some hvw => exact ⟨v, _, hv, rfl, hvw, hadmits⟩

lemma HasKey.of_alike (ha : k.HasKey enforce a) (hab : Item.Alike a b) : k.HasKey enforce b := by
  intro part hpart
  obtain ⟨v, w, _, hw, hvw, hadmits⟩ := ha.exists_alike hab hpart
  exact ⟨w, hw, fun henforce type htype => hvw.fits_eq type ▸ hadmits henforce type htype⟩

lemma HasKey.sameKey_of_alike (ha : k.HasKey enforce a) (hab : Item.Alike a b) :
    k.sameKey a b = true := by
  rw [sameKey_iff]
  intro name hname
  obtain ⟨part, hpart, rfl⟩ := List.mem_map.mp hname
  obtain ⟨v, w, hv, hw, hvw, _⟩ := ha.exists_alike hab hpart
  exact ⟨v, w, hv, hw, hvw⟩

end KeySchema

namespace Store

variable {s : Store} {table : String} {found : Option Item}

/-- **Alike keys find the same item**, provided that the numbers in both are numerals. -/
theorem gets_of_alike (h : s.Gets table a found) (hab : Item.Alike a b) (hb : Item.Valid b) :
    s.Gets table b found := by
  rw [gets_iff] at h ⊢
  obtain ⟨t, ht, hcheck, hkey, rfl⟩ := h
  obtain ⟨⟨hsize, hnames⟩, _⟩ := Answer.checkKey_eq_ok.mp hcheck
  rw [hab.size_eq] at hsize
  rw [hab.names_eq] at hnames
  refine ⟨t, ht, Answer.checkKey_eq_ok.mpr ⟨⟨hsize, hnames⟩, hb⟩, hkey.of_alike hab, ?_⟩
  simp only [Rows.at?, KeySchema.sameKey_congr (hkey.sameKey_of_alike hab)]

/-- A number in a key may be spelled in another way. -/
lemma gets_of_alike_insert (h : s.Gets table (base.insert name v) found) (hvw : v.Alike w)
    (hw : w.Valid) : s.Gets table (base.insert name w) found := by
  obtain ⟨_, _, hcheck, _⟩ := gets_iff.mp h
  have hvalid := (Answer.checkKey_eq_ok.mp hcheck).2
  exact gets_of_alike h (Item.alike_insert hvalid hvw) (hvalid.insert_of_insert hw)

end Store

end

/-! ## Numerals -/

namespace Number

open Binary64

variable {x y : String} {m n : Numeral}

/-- **Numerals are in the order of the rationals that they denote**, whatever their spellings.
Where one of them is read as an integer and the other is rounded, this takes a binary64 number
between the two.  Numerals of one rational agree, and in a key either of them finds what the other
does. -/
theorem order_of_numerals (hx : Numeral.read? x.toList = some m)
    (hy : Numeral.read? y.toList = some n) (hle : m.value ≤ n.value)
    (h : SameKind (read x) (read y) ∨ Between m.value n.value) :
    ((Value.number x).decode.compare (Value.number y).decode = some .lt ∨
        (Value.number x).decode.compare (Value.number y).decode = some .eq) ∧
      (m.value = n.value →
        (Value.number x).agrees (.number y) = true ∧
          ∀ (s : Store) (table : String) (base : Item) (name : String) (found : Option Item),
            s.Gets table (base.insert name (.number x)) found ↔
              s.Gets table (base.insert name (.number y)) found) := by
  refine ⟨compare_of_value_le hx hy hle h, fun heq => ?_⟩
  have halike := alike_of_value_eq hx hy heq h
  have hvalid : (Value.number x).Valid := Value.valid_number.mpr (by rw [isNumeral, hx]; rfl)
  have hvalid' : (Value.number y).Valid := Value.valid_number.mpr (by rw [isNumeral, hy]; rfl)
  refine ⟨halike, fun s table base name found => ⟨fun hgets => ?_, fun hgets => ?_⟩⟩
  · exact Store.gets_of_alike_insert hgets halike hvalid'
  · exact Store.gets_of_alike_insert hgets halike.symm hvalid

/-- A number that is rounded before an integer that is no binary64 number, and a key in two
spellings. -/
theorem order_of_numerals_sample :
    ((Value.number "-9007199254740993.0").decode.compare (Value.number "9007199254740993").decode
          = some .lt ∨
        (Value.number "-9007199254740993.0").decode.compare (Value.number "9007199254740993").decode
          = some .eq) ∧
      (Value.number "5").agrees (.number "+50.0e-1") = true ∧
      ∀ found, Sample.store.Gets "Readings" (Sample.key "5") found ↔
        Sample.store.Gets "Readings" (Sample.key "+50.0e-1") found := by
  have hbelow : Numeral.read? "-9007199254740993.0".toList
      = some ⟨true, 90071992547409930, -1⟩ := by
    decide +kernel
  have habove : Numeral.read? "9007199254740993".toList = some ⟨false, 9007199254740993, 0⟩ := by
    decide +kernel
  have hfive : Numeral.read? "5".toList = some ⟨false, 5, 0⟩ := by decide +kernel
  have hpoint : Numeral.read? "+50.0e-1".toList = some ⟨false, 500, -2⟩ := by decide +kernel
  have hzero : Between (Numeral.value ⟨true, 90071992547409930, -1⟩)
      (Numeral.value ⟨false, 9007199254740993, 0⟩) := by
    refine ⟨(0 : ℤ), exact_of_natAbs_le (by decide), ?_, ?_⟩ <;>
      norm_num [Numeral.value, Numeral.size]
  have heq : Numeral.value ⟨false, 5, 0⟩ = Numeral.value ⟨false, 500, -2⟩ := by
    norm_num [Numeral.value, Numeral.size]
  have hexact : Between (Numeral.value ⟨false, 5, 0⟩) (Numeral.value ⟨false, 500, -2⟩) := by
    refine ⟨(5 : ℤ), exact_of_natAbs_le (by decide), ?_, ?_⟩ <;>
      norm_num [Numeral.value, Numeral.size]
  have hkey : ∀ id, Sample.key id = NameMap.empty.insert "id" (.number id) := fun _ => rfl
  obtain ⟨horder, _⟩ := order_of_numerals hbelow habove hzero.le (.inr hzero)
  obtain ⟨_, hsame⟩ := order_of_numerals hfive hpoint heq.le (.inr hexact)
  obtain ⟨hagrees, hgets⟩ := hsame heq
  rw [hkey, hkey]
  exact ⟨horder, hagrees, hgets Sample.store "Readings" .empty "id"⟩

/-- An integer that is no binary64 number comes after the number that it is rounded to, so that a
point behind it makes another number of it. -/
theorem order_of_numerals_differs :
    (¬ ∀ (x y : String) (m n : Numeral), Numeral.read? x.toList = some m →
        Numeral.read? y.toList = some n → m.value ≤ n.value →
          (Value.number x).decode.compare (Value.number y).decode = some .lt ∨
            (Value.number x).decode.compare (Value.number y).decode = some .eq) ∧
      ¬ ∀ (x y : String) (m n : Numeral), Numeral.read? x.toList = some m →
        Numeral.read? y.toList = some n → m.value = n.value →
          (Value.number x).agrees (.number y) = true := by
  have hint : Numeral.read? "9007199254740993".toList = some ⟨false, 9007199254740993, 0⟩ := by
    decide +kernel
  have hpoint : Numeral.read? "9007199254740993.0".toList
      = some ⟨false, 90071992547409930, -1⟩ := by
    decide +kernel
  have hvalue : (⟨false, 9007199254740993, 0⟩ : Numeral).value
      = (⟨false, 90071992547409930, -1⟩ : Numeral).value := by
    norm_num [Numeral.value, Numeral.size]
  have hcompare : (Value.number "9007199254740993").decode.compare
      (Value.number "9007199254740993.0").decode = some .gt := by
    decide +kernel
  have hagrees : (Value.number "9007199254740993").agrees (.number "9007199254740993.0")
      = false := by
    decide +kernel
  constructor
  · intro h
    have horder := h _ _ _ _ hint hpoint hvalue.le
    rw [hcompare] at horder
    simp at horder
  · intro h
    exact Bool.false_ne_true (hagrees.symm.trans (h _ _ _ _ hint hpoint hvalue))

end Number

end ItemStore
