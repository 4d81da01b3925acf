import ItemStore.Proofs.Lexemes
import ItemStore.Proofs.Spelling
import ItemStore.Value.Decoded
import Mathlib.Computability.RegularExpressions

/-!
# The grammar of numerals

The texts that may stand as numbers are given by a regular expression.  The reader takes digits as
long as there are some and never goes back, which is enough: no part of a numeral begins as the part
before it could have gone on.

* `Pattern` — regular expressions over characters, with what it takes to write one down.
* `Pattern.numeral` — the texts of numerals.
* **`Numeral.isSome_read?_iff`** — a text is read as a numeral when it matches the pattern.
* `Numeral.IntegerText` — a sign and digits, and the integer in them.
* **`Number.read_numeral`** — a numeral is a number: an integer if it spells one of 64 bits, and a
  binary64 number, finite or not, if it does not.
-/

namespace ItemStore

/-! ## Patterns -/

/-- A regular expression over characters. -/
abbrev Pattern := RegularExpression Char

namespace Pattern

/-- One of some characters. -/
def oneOf (chars : List Char) : Pattern := (chars.map RegularExpression.char).sum

def optional (p : Pattern) : Pattern := 1 + p

def oneOrMore (p : Pattern) : Pattern := p * p.star

def digit : Pattern := oneOf ['0', '1', '2', '3', '4', '5', '6', '7', '8', '9']

variable {p q : Pattern} {text : List Char} {chars : List Char}

lemma mem_char {c : Char} : text ∈ (RegularExpression.char c).matches' ↔ text = [c] :=
  Set.mem_singleton_iff

lemma mem_add : text ∈ (p + q).matches' ↔ text ∈ p.matches' ∨ text ∈ q.matches' :=
  Language.mem_add _ _ _

lemma mem_mul :
    text ∈ (p * q).matches' ↔ ∃ a ∈ p.matches', ∃ b ∈ q.matches', a ++ b = text :=
  Language.mem_mul

lemma mem_optional : text ∈ (optional p).matches' ↔ text = [] ∨ text ∈ p.matches' := by
  rw [optional, mem_add, RegularExpression.matches'_epsilon, Language.mem_one]

lemma mem_oneOf : text ∈ (oneOf chars).matches' ↔ ∃ c ∈ chars, text = [c] := by
  induction chars with
  | nil => simp [oneOf, Language.notMem_zero]
  | cons c chars ih =>
      rw [oneOf, List.map_cons, List.sum_cons, ← oneOf, mem_add, mem_char, ih]
      simp

lemma mem_star_oneOf : text ∈ (oneOf chars).star.matches' ↔ ∀ c ∈ text, c ∈ chars := by
  rw [RegularExpression.matches'_star, Language.mem_kstar]
  constructor
  · rintro ⟨words, rfl, hwords⟩ c hc
    obtain ⟨word, hword, hc⟩ := List.mem_flatten.mp hc
    obtain ⟨d, hd, rfl⟩ := mem_oneOf.mp (hwords word hword)
    rwa [List.mem_singleton.mp hc]
  · intro h
    refine ⟨text.map fun c => [c], ?_, List.forall_mem_map.mpr fun c hc => ?_⟩
    · rw [← List.flatMap_def, List.flatMap_singleton']
    · exact mem_oneOf.mpr ⟨c, h c hc, rfl⟩

lemma mem_oneOrMore_oneOf :
    text ∈ (oneOrMore (oneOf chars)).matches' ↔ text ≠ [] ∧ ∀ c ∈ text, c ∈ chars := by
  rw [oneOrMore, mem_mul]
  constructor
  · rintro ⟨_, hfirst, rest, hrest, rfl⟩
    obtain ⟨c, hc, rfl⟩ := mem_oneOf.mp hfirst
    exact ⟨by simp, List.forall_mem_cons.mpr ⟨hc, mem_star_oneOf.mp hrest⟩⟩
  · rintro ⟨hne, h⟩
    obtain ⟨c, rest, rfl⟩ := List.exists_cons_of_ne_nil hne
    obtain ⟨hc, hrest⟩ := List.forall_mem_cons.mp h
    exact ⟨[c], mem_oneOf.mpr ⟨c, hc, rfl⟩, rest, mem_star_oneOf.mpr hrest, rfl⟩

lemma isDigit_iff {c : Char} :
    c.isDigit = true ↔ c ∈ ['0', '1', '2', '3', '4', '5', '6', '7', '8', '9'] := by
  constructor
  · intro h
    rw [Char.isDigit, Bool.and_eq_true, decide_eq_true_eq, decide_eq_true_eq, ge_iff_le,
      UInt32.le_iff_toNat_le, UInt32.le_iff_toNat_le] at h
    obtain ⟨hlow, hhigh⟩ : 48 ≤ c.toNat ∧ c.toNat ≤ 57 := h
    rw [← Char.ofNat_toNat c]
    generalize c.toNat = n at hlow hhigh
    interval_cases n <;> decide
  · have hdigits : (['0', '1', '2', '3', '4', '5', '6', '7', '8', '9'].all Char.isDigit) = true :=
      rfl
    exact List.all_eq_true.mp hdigits c

lemma mem_star_digit : text ∈ digit.star.matches' ↔ ∀ c ∈ text, c.isDigit = true := by
  simp only [isDigit_iff]
  exact mem_star_oneOf

lemma mem_digits :
    text ∈ (oneOrMore digit).matches' ↔ text ≠ [] ∧ ∀ c ∈ text, c.isDigit = true := by
  simp only [isDigit_iff]
  exact mem_oneOrMore_oneOf

/-! ### The parts of numerals -/

def sign : Pattern := optional (oneOf ['+', '-'])

/-- Digits behind a sign. -/
def integer : Pattern := sign * oneOrMore digit

/-- Digits with a point behind them or among them, or behind a point. -/
def mantissa : Pattern :=
  oneOrMore digit * optional (.char '.' * digit.star) + .char '.' * oneOrMore digit

def exponent : Pattern := optional (oneOf ['e', 'E'] * integer)

def numeral : Pattern := sign * mantissa * exponent

lemma mem_sign : text ∈ sign.matches' ↔ text ∈ Numeral.signs := by
  rw [sign, mem_optional, mem_oneOf]
  simp [Numeral.signs, or_comm]

/-- An exponent begins with its mark. -/
lemma head_of_exponent (h : text ∈ exponent.matches') : ∀ c ∈ text.head?, c = 'e' ∨ c = 'E' := by
  rw [exponent, mem_optional, mem_mul] at h
  rcases h with rfl | ⟨_, hmark, power, -, rfl⟩
  · simp
  · obtain ⟨mark, hmem, rfl⟩ := mem_oneOf.mp hmark
    simpa using hmem

/-- A mantissa is a whole number, or the digits before and behind a point. -/
lemma mem_mantissa : text ∈ mantissa.matches' ↔
    (text ≠ [] ∧ ∀ c ∈ text, c.isDigit = true) ∨
      ∃ whole fraction, text = whole ++ '.' :: fraction ∧ whole ++ fraction ≠ [] ∧
        ∀ c ∈ whole ++ fraction, c.isDigit = true := by
  simp only [mantissa, mem_add, mem_mul, mem_optional, mem_char, mem_digits, mem_star_digit]
  constructor
  · rintro (⟨whole, ⟨hne, hwhole⟩, _, rfl | ⟨_, rfl, fraction, hfraction, rfl⟩, rfl⟩ |
      ⟨_, rfl, fraction, ⟨hne, hfraction⟩, rfl⟩)
    · rw [List.append_nil]
      exact .inl ⟨hne, hwhole⟩
    · exact .inr ⟨whole, fraction, rfl, List.append_ne_nil_of_left_ne_nil hne fraction,
        List.forall_mem_append.mpr ⟨hwhole, hfraction⟩⟩
    · exact .inr ⟨[], fraction, rfl, hne, hfraction⟩
  · rintro (h | ⟨whole, fraction, rfl, hne, hdigits⟩)
    · exact .inl ⟨text, h, [], .inl rfl, List.append_nil text⟩
    · obtain ⟨hwhole, hfraction⟩ := List.forall_mem_append.mp hdigits
      by_cases hempty : whole = []
      · subst hempty
        exact .inr ⟨['.'], rfl, fraction, ⟨hne, hfraction⟩, rfl⟩
      · exact .inl ⟨whole, ⟨hempty, hwhole⟩, '.' :: fraction,
          .inr ⟨['.'], rfl, fraction, hfraction, rfl⟩, rfl⟩

end Pattern

namespace Numeral

open Pattern

variable {text : List Char}

/-! ## Reading by the grammar -/

/-- A sign is split off, unless there are two. -/
lemma splitSign_append {sign body : List Char} (hsign : sign ∈ signs)
    (hbody : ∀ c ∈ body.head?, c ≠ '+' ∧ c ≠ '-') : (splitSign (sign ++ body)).2 = body := by
  simp only [signs, List.mem_cons, List.not_mem_nil, or_false] at hsign
  rcases hsign with rfl | rfl | rfl
  · rw [List.nil_append, splitSign.eq_def]
    split
    · exact absurd rfl (hbody '-' rfl).2
    · exact absurd rfl (hbody '+' rfl).1
    · rfl
  · rfl
  · rfl

lemma not_sign_of_isDigit {c : Char} (h : c.isDigit = true) : c ≠ '+' ∧ c ≠ '-' := by
  constructor <;> rintro rfl <;> cases h

lemma isSome_integer?_iff : (integer? text).isSome = true ↔ text ∈ integer.matches' := by
  rw [integer, mem_mul]
  constructor
  · intro h
    obtain ⟨sign, hsign, digits, rfl, hdigits⟩ := digits_of_integer? h
    exact ⟨sign, mem_sign.mpr hsign, digits, mem_digits.mpr hdigits, rfl⟩
  · rintro ⟨sign, hsign, digits, hdigits, rfl⟩
    obtain ⟨hne, hdigits⟩ := mem_digits.mp hdigits
    have hsplit : (splitSign (sign ++ digits)).2 = digits :=
      splitSign_append (mem_sign.mp hsign) fun c hc =>
        not_sign_of_isDigit (hdigits c (List.mem_of_mem_head? hc))
    simp [integer?, hsplit, natural?_digits hne hdigits]

lemma isSome_exponent?_iff : (exponent? text).isSome = true ↔ text ∈ Pattern.exponent.matches' := by
  rw [Pattern.exponent, mem_optional, mem_mul]
  cases text with
  | nil => simp [exponent?]
  | cons mark power =>
      rw [exponent?]
      constructor
      · intro h
        split_ifs at h with hmark
        · exact .inr ⟨[mark], mem_oneOf.mpr ⟨mark, by simpa using hmark, rfl⟩, power,
            isSome_integer?_iff.mp h, rfl⟩
        · cases h
      · rintro (h | ⟨_, hmark, power', hpower, h⟩)
        · cases h
        · obtain ⟨mark', hmark', rfl⟩ := mem_oneOf.mp hmark
          obtain ⟨rfl, rfl⟩ := List.cons_eq_cons.mp h
          rw [if_pos (by simpa using hmark')]
          exact isSome_integer?_iff.mpr hpower

/-- A text is read as a numeral when there are digits in it, and an exponent behind them. -/
lemma isSome_read?_of_split {body whole rest fraction power : List Char}
    (hsign : (splitSign text).2 = body) (htake : body.takeWhile Char.isDigit = whole)
    (hdrop : body.dropWhile Char.isDigit = rest) (hpoint : splitFraction rest = (fraction, power)) :
    (read? text).isSome = true ↔ whole ++ fraction ≠ [] ∧ (exponent? power).isSome = true := by
  subst hsign
  rw [read?]
  simp only [htake, hdrop, hpoint]
  split_ifs with hempty
  · simp_all
  · rw [Option.isSome_map, iff_and_self, ne_eq, List.append_eq_nil_iff]
    exact fun _ => by simpa using hempty

/-- What is in front of an exponent is split where the digits end. -/
lemma splitDigits {digits rest : List Char} (hdigits : ∀ c ∈ digits, c.isDigit = true)
    (hrest : ∀ c ∈ rest.head?, c = '.' ∨ c = 'e' ∨ c = 'E') :
    (digits ++ rest).takeWhile Char.isDigit = digits ∧
      (digits ++ rest).dropWhile Char.isDigit = rest := by
  refine Token.splitWhile hdigits fun c hc => ?_
  rcases hrest c hc with rfl | rfl | rfl <;> rfl

/-- A mantissa in front of an exponent begins with no sign. -/
lemma head_of_mantissa {body power : List Char} (hbody : body ∈ Pattern.mantissa.matches') :
    ∀ c ∈ (body ++ power).head?, c ≠ '+' ∧ c ≠ '-' := by
  intro c hc
  rcases mem_mantissa.mp hbody with ⟨hne, hdigits⟩ | ⟨whole, fraction, rfl, -, hdigits⟩
  · rw [List.head?_append_of_ne_nil _ hne] at hc
    exact not_sign_of_isDigit (hdigits c (List.mem_of_mem_head? hc))
  · cases whole with
    | nil =>
        obtain rfl : '.' = c := Option.some.inj hc
        decide
    | cons d whole =>
        obtain rfl : d = c := Option.some.inj hc
        exact not_sign_of_isDigit (hdigits d List.mem_cons_self)

/-- A mantissa in front of an exponent is split into its digits, and the exponent is left. -/
lemma exists_split_of_mantissa {body power : List Char} (hbody : body ∈ Pattern.mantissa.matches')
    (hmark : ∀ c ∈ power.head?, c = 'e' ∨ c = 'E') :
    ∃ whole rest fraction, (body ++ power).takeWhile Char.isDigit = whole ∧
      (body ++ power).dropWhile Char.isDigit = rest ∧ splitFraction rest = (fraction, power) ∧
      whole ++ fraction ≠ [] := by
  rcases mem_mantissa.mp hbody with ⟨hne, hdigits⟩ | ⟨whole, fraction, rfl, hne, hdigits⟩
  · obtain ⟨htake, hdrop⟩ := splitDigits hdigits fun c hc => .inr (hmark c hc)
    refine ⟨body, power, [], htake, hdrop, ?_, by rwa [List.append_nil]⟩
    unfold splitFraction
    split
    · rcases hmark '.' rfl with h | h <;> cases h
    · rfl
  · obtain ⟨hwhole, hfraction⟩ := List.forall_mem_append.mp hdigits
    have hdot : ∀ c ∈ ('.' :: (fraction ++ power)).head?, c = '.' ∨ c = 'e' ∨ c = 'E' :=
      fun c hc => .inl (Option.some.inj hc).symm
    obtain ⟨htake, hdrop⟩ := splitDigits hwhole hdot
    obtain ⟨htake', hdrop'⟩ := splitDigits hfraction fun c hc => .inr (hmark c hc)
    rw [List.append_assoc, List.cons_append]
    exact ⟨whole, _, fraction, htake, hdrop, by rw [splitFraction, htake', hdrop'], hne⟩

/-- What is left of a text behind its digits has a mantissa in front of it. -/
lemma exists_mantissa_of_split {body fraction power : List Char}
    (hpoint : splitFraction (body.dropWhile Char.isDigit) = (fraction, power))
    (hne : body.takeWhile Char.isDigit ++ fraction ≠ []) :
    ∃ front ∈ Pattern.mantissa.matches', body = front ++ power := by
  have hwhole : ∀ c ∈ body.takeWhile Char.isDigit, c.isDigit = true := fun c hc =>
    List.mem_takeWhile_imp hc
  have hsplit := (List.takeWhile_append_dropWhile (p := Char.isDigit) (l := body)).symm
  obtain ⟨hfraction, hrest⟩ := exists_point (body.dropWhile Char.isDigit)
  rw [hpoint] at hfraction hrest
  generalize body.takeWhile Char.isDigit = whole at hne hwhole hsplit
  rcases hrest with ⟨hdrop, rfl⟩ | hdrop
  · rw [List.append_nil] at hne
    exact ⟨whole, mem_mantissa.mpr (.inl ⟨hne, hwhole⟩), by rw [hsplit, hdrop]⟩
  · have hdigits := List.forall_mem_append.mpr ⟨hwhole, hfraction⟩
    refine ⟨whole ++ '.' :: fraction,
      mem_mantissa.mpr (.inr ⟨whole, fraction, rfl, hne, hdigits⟩), ?_⟩
    rw [List.append_assoc, hsplit, hdrop]

/-- **A text is read as a numeral when it matches the pattern.** -/
theorem isSome_read?_iff : (read? text).isSome = true ↔ text ∈ numeral.matches' := by
  rw [numeral, mem_mul]
  constructor
  · intro h
    obtain ⟨sign, hsign, htext⟩ := exists_sign text
    obtain ⟨fraction, power, hpoint⟩ : ∃ fraction power,
        splitFraction ((splitSign text).2.dropWhile Char.isDigit) = (fraction, power) :=
      ⟨_, _, rfl⟩
    obtain ⟨hne, hpower⟩ := (isSome_read?_of_split rfl rfl rfl hpoint).mp h
    obtain ⟨front, hfront, hbody⟩ := exists_mantissa_of_split hpoint hne
    refine ⟨sign ++ front, mem_mul.mpr ⟨sign, mem_sign.mpr hsign, front, hfront, rfl⟩, power,
      isSome_exponent?_iff.mp hpower, ?_⟩
    rw [List.append_assoc, ← hbody, ← htext]
  · rintro ⟨_, hfront, power, hpower, rfl⟩
    obtain ⟨sign, hsign, body, hbody, rfl⟩ := mem_mul.mp hfront
    obtain ⟨whole, rest, fraction, htake, hdrop, hpoint, hne⟩ :=
      exists_split_of_mantissa hbody (head_of_exponent hpower)
    rw [List.append_assoc]
    have hsplit : (splitSign (sign ++ (body ++ power))).2 = body ++ power :=
      splitSign_append (mem_sign.mp hsign) (head_of_mantissa hbody)
    exact (isSome_read?_of_split hsplit htake hdrop hpoint).mpr
      ⟨hne, isSome_exponent?_iff.mpr hpower⟩

/-! ## Integers -/

/-- The natural number that digits write out, the last of them counting ones. -/
def digitsValue (digits : List Char) : ℕ :=
  Nat.ofDigits 10 (digits.reverse.map fun d => d.toNat - '0'.toNat)

lemma ofDigitChars_eq_digitsValue (digits : List Char) :
    Nat.ofDigitChars 10 digits 0 = digitsValue digits := by
  induction digits using List.reverseRecOn with
  | nil => rfl
  | append_singleton digits d ih =>
      calc Nat.ofDigitChars 10 (digits ++ [d]) 0
          = 10 * digitsValue digits + (d.toNat - '0'.toNat) := by
            rw [Nat.ofDigitChars_append, ih]
            rfl
        _ = digitsValue (digits ++ [d]) := by
            rw [digitsValue, digitsValue, List.reverse_concat, List.map_cons, Nat.ofDigits_cons,
              add_comm]

/-- A text is digits behind a sign, and an integer what they write out. -/
inductive IntegerText : List Char → ℤ → Prop
  | positive {sign digits : List Char} (hsign : sign = [] ∨ sign = ['+']) (hne : digits ≠ [])
      (hdigits : ∀ d ∈ digits, d.isDigit = true) : IntegerText (sign ++ digits) (digitsValue digits)
  | negative {digits : List Char} (hne : digits ≠ []) (hdigits : ∀ d ∈ digits, d.isDigit = true) :
      IntegerText ('-' :: digits) (-digitsValue digits)

lemma integer?_of_splitSign {digits : List Char} {negative : Bool}
    (hsplit : splitSign text = (negative, digits)) (hne : digits ≠ [])
    (hdigits : ∀ d ∈ digits, d.isDigit = true) :
    integer? text = some (if negative then -(digitsValue digits : ℤ) else digitsValue digits) := by
  rw [integer?, hsplit]
  simp only [natural?_digits hne hdigits, ofDigitChars_eq_digitsValue]
  rfl

/-- **The texts that are read as integers are digits behind a sign.** -/
theorem integer?_eq_some_iff {i : ℤ} : integer? text = some i ↔ IntegerText text i := by
  constructor
  · intro h
    obtain ⟨sign, hsign, digits, rfl, hne, hdigits⟩ :=
      digits_of_integer? (Option.isSome_of_eq_some h)
    simp only [signs, List.mem_cons, List.not_mem_nil, or_false] at hsign
    rcases hsign with rfl | rfl | rfl
    · have hvalue := integer?_of_splitSign (splitSign_digits false hne hdigits) hne hdigits
      obtain rfl := Option.some.inj (hvalue.symm.trans h)
      exact .positive (.inl rfl) hne hdigits
    · have hvalue := integer?_of_splitSign (splitSign_digits true hne hdigits) hne hdigits
      obtain rfl := Option.some.inj (hvalue.symm.trans h)
      exact .negative hne hdigits
    · have hvalue := integer?_of_splitSign (rfl : splitSign ('+' :: digits) = _) hne hdigits
      obtain rfl := Option.some.inj (hvalue.symm.trans h)
      exact .positive (.inr rfl) hne hdigits
  · rintro (⟨rfl | rfl, hne, hdigits⟩ | ⟨hne, hdigits⟩)
    · exact integer?_of_splitSign (splitSign_digits false hne hdigits) hne hdigits
    · exact integer?_of_splitSign rfl hne hdigits
    · exact integer?_of_splitSign rfl hne hdigits

end Numeral

/-! ## What numerals are read as -/

namespace Number

open Numeral

lemma fitsInt_iff {i : ℤ} : fitsInt i = true ↔ -2 ^ 63 ≤ i ∧ i < 2 ^ 63 := by
  rw [fitsInt, Bool.and_eq_true, decide_eq_true_eq, decide_eq_true_eq]

/-- **The numbers in values are the texts of one pattern, and every one of them is a number.**  A
sign and digits is read as the integer, if this has 64 bits, and everything else as a binary64
number, which may be infinite. -/
theorem read_numeral (text : String) :
    (isNumeral text = true ↔ text.toList ∈ Pattern.numeral.matches') ∧
      (isNumeral text = true →
        (∀ i, IntegerText text.toList i → -2 ^ 63 ≤ i → i < 2 ^ 63 →
          (Value.number text).decode = .number (.int i)) ∧
        ((∀ i, IntegerText text.toList i → ¬ (-2 ^ 63 ≤ i ∧ i < 2 ^ 63)) →
          ∃ negative rank,
            (Value.number text).decode = .number (.float (.signed negative rank)))) := by
  refine ⟨isSome_read?_iff, fun hnumeral => ⟨fun i hi hlow hhigh => ?_, fun hnone => ?_⟩⟩
  · have hfits : (integer? text.toList).filter fitsInt = some i :=
      Option.filter_eq_some_iff.mpr ⟨integer?_eq_some_iff.mpr hi, fitsInt_iff.mpr ⟨hlow, hhigh⟩⟩
    rw [Value.decode, read, hfits]
  · have hfits : (integer? text.toList).filter fitsInt = none := by
      refine Option.filter_eq_none_iff.mpr fun i hi hfits => ?_
      exact hnone i (integer?_eq_some_iff.mp hi) (fitsInt_iff.mp hfits)
    obtain ⟨n, hn⟩ := Option.isSome_iff_exists.mp hnumeral
    rw [Value.decode, read, hfits, readFloat, hn]
    exact ⟨_, _, rfl⟩

/-- An integer with a plus sign and zeros in front, the least integer that is too large, and a
number that is too large for a finite one. -/
theorem read_numeral_samples :
    (Value.number "+0042").decode = .number (.int 42) ∧
      (∃ negative rank,
        (Value.number "9223372036854775808").decode = .number (.float (.signed negative rank))) ∧
      ∃ negative rank,
        (Value.number "-.5e400").decode = .number (.float (.signed negative rank)) := by
  have hplus : IntegerText "+0042".toList 42 := integer?_eq_some_iff.mp (by decide)
  have hlarge : ∀ i, IntegerText "9223372036854775808".toList i → ¬ (-2 ^ 63 ≤ i ∧ i < 2 ^ 63) := by
    intro i hi
    rw [← integer?_eq_some_iff] at hi
    obtain rfl := Option.some.inj ((by decide : _ = some (9223372036854775808 : ℤ)).symm.trans hi)
    norm_num
  have hexponent : ∀ i, IntegerText "-.5e400".toList i → ¬ (-2 ^ 63 ≤ i ∧ i < 2 ^ 63) := by
    intro i hi
    have hnone : integer? "-.5e400".toList = none := by decide
    rw [← integer?_eq_some_iff, hnone] at hi
    cases hi
  exact ⟨((read_numeral "+0042").2 (by decide)).1 42 hplus (by norm_num) (by norm_num),
    ((read_numeral "9223372036854775808").2 (by decide)).2 hlarge,
    ((read_numeral "-.5e400").2 (by decide)).2 hexponent⟩

end Number

end ItemStore
