import ItemStore.Select.Token
import Mathlib

/-!
# Spellings of tokens

A text is read as the tokens that it spells, and it spells the tokens that it is read as.  A token
is over where its spelling ends, which takes a look at one character behind it: a word or a number
runs on as long as it can, a quote that stands right behind quoted content would have doubled the
one that closes it, and a mark is read with a second character if there is a longer mark.

* `Token.SpelledBy` — how a token is written; `Token.EndsBefore` says what may stand behind it.
* `Token.lead_of_isNumeral` — a numeral is a run of characters that a number goes on with.
* `Token.readAs_of_spelledBy` — a token is read back from its spelling.
* `Token.spelledOff_of_lexeme` — what is read as a token is a spelling of it.
* `Token.Spelt` — spellings with blanks around them; in `Token.Spaced` blanks separate any two.
* **`Token.tokens_of_spelt`**, **`Token.spelt_of_tokens`** — the tokens of a text are the ones that
  it spells.
-/

namespace ItemStore

namespace Token

/-! ## Spellings -/

/-- Quoted content with every quote in it written twice. -/
def doubled (quote : Char) (content : List Char) : List Char :=
  content.flatMap fun c => if c = quote then [quote, quote] else [c]

/-- Content between its quotes. -/
def quoted (quote : Char) (s : String) : List Char :=
  quote :: (doubled quote s.toList ++ [quote])

/-- The keywords, in lower case. -/
def keywords : List (Token × String) :=
  [ (kwSelect, "select"), (kwFrom, "from"), (kwWhere, "where"), (kwAnd, "and"), (kwOr, "or"),
    (kwIn, "in")]

/-- The marks.  Inequality has two. -/
def marks : List (Token × List Char) :=
  [ (star, ['*']), (comma, [',']), (dot, ['.']), (openBracket, ['[']), (closeBracket, [']']),
    (eq, ['=']), (ne, ['<', '>']), (ne, ['!', '=']), (lt, ['<']), (le, ['<', '=']), (gt, ['>']),
    (ge, ['>', '='])]

/-- How a token is written. -/
inductive SpelledBy : Token → List Char → Prop
  | name {c : Char} {rest : List Char} (hfirst : beginsName c = true)
      (hrest : ∀ d ∈ rest, continuesName d = true)
      (hword : ∀ k ∈ keywords, (c :: rest).map Char.toLower ≠ k.2.toList) :
      SpelledBy (.name (String.ofList (c :: rest))) (c :: rest)
  | quotedName (s : String) : SpelledBy (.quotedName s) (quoted '"' s)
  | string (s : String) : SpelledBy (.string s) (quoted '\'' s)
  | number {n : String} (h : isNumeral n = true) : SpelledBy (.number n) n.toList
  | keyword {t : Token} {lower : String} {word : List Char} (h : (t, lower) ∈ keywords)
      (hcase : word.map Char.toLower = lower.toList) : SpelledBy t word
  | mark {t : Token} {word : List Char} (h : (t, word) ∈ marks) : SpelledBy t word

/-- A token that can be written at all. -/
def Spellable (t : Token) : Prop := ∃ word, t.SpelledBy word

lemma spellable_of_keyword {t : Token} {lower : String} (h : (t, lower) ∈ keywords) :
    t.Spellable := by
  have hlower : ∀ k ∈ keywords, k.2.toList.map Char.toLower = k.2.toList := by decide
  exact ⟨lower.toList, .keyword h (hlower _ h)⟩

/-- Of bare names and of numbers some cannot be written, and of the other tokens none. -/
def alwaysSpellable : Token → Bool
  | name _ | number _ => false
  | _ => true

lemma spellable_of_always {t : Token} (h : t.alwaysSpellable = true) : t.Spellable := by
  cases t with
  | name | number => cases h
  | quotedName s => exact ⟨_, .quotedName s⟩
  | string s => exact ⟨_, .string s⟩
  | star => exact ⟨['*'], .mark (by simp [marks])⟩
  | comma => exact ⟨[','], .mark (by simp [marks])⟩
  | dot => exact ⟨['.'], .mark (by simp [marks])⟩
  | openBracket => exact ⟨['['], .mark (by simp [marks])⟩
  | closeBracket => exact ⟨[']'], .mark (by simp [marks])⟩
  | eq => exact ⟨['='], .mark (by simp [marks])⟩
  | ne => exact ⟨['<', '>'], .mark (by simp [marks])⟩
  | lt => exact ⟨['<'], .mark (by simp [marks])⟩
  | le => exact ⟨['<', '='], .mark (by simp [marks])⟩
  | gt => exact ⟨['>'], .mark (by simp [marks])⟩
  | ge => exact ⟨['>', '='], .mark (by simp [marks])⟩
  | kwSelect => exact spellable_of_keyword (show (kwSelect, "select") ∈ keywords by simp [keywords])
  | kwFrom => exact spellable_of_keyword (show (kwFrom, "from") ∈ keywords by simp [keywords])
  | kwWhere => exact spellable_of_keyword (show (kwWhere, "where") ∈ keywords by simp [keywords])
  | kwAnd => exact spellable_of_keyword (show (kwAnd, "and") ∈ keywords by simp [keywords])
  | kwOr => exact spellable_of_keyword (show (kwOr, "or") ∈ keywords by simp [keywords])
  | kwIn => exact spellable_of_keyword (show (kwIn, "in") ∈ keywords by simp [keywords])

/-- Whether a token would go on with a character that stands right behind it. -/
def goesOn : Token → Char → Bool
  | name _ | kwSelect | kwFrom | kwWhere | kwAnd | kwOr | kwIn => continuesName
  | quotedName _ => (· == '"')
  | string _ => (· == '\'')
  | number n => fun d => n.toList.getLast?.any fun last => continuesNumber last d
  | lt => fun d => d == '=' || d == '>'
  | gt => (· == '=')
  | dot => Char.isDigit
  | star | comma | openBracket | closeBracket | eq | ne | le | ge => fun _ => false

lemma goesOn_blank {d : Char} (h : isBlank d = true) (t : Token) : t.goesOn d = false := by
  simp only [isBlank, Bool.or_eq_true, beq_iff_eq] at h
  rcases h with (((rfl | rfl) | rfl) | rfl) | rfl <;>
    cases t <;> simp [goesOn, continuesNumber] <;> decide

/-- A token is over where the text ends or a character stands that it does not go on with. -/
def EndsBefore (t : Token) (rest : List Char) : Prop :=
  ∀ d ∈ rest.head?, t.goesOn d = false

/-! ## Names and keywords -/

section

variable {c : Char} {tail rest : List Char}

lemma continuesName_of_isAlpha (h : c.isAlpha = true) : continuesName c = true := by
  simp [continuesName, Char.isAlphanum, h]

lemma mark?_of_beginsName (h : beginsName c = true) (rest : List Char) : mark? c rest = none := by
  unfold mark?
  split <;> first | rfl | cases h

lemma isDigit_of_beginsName (h : beginsName c = true) : c.isDigit = false := by
  simp only [beginsName, Char.isAlpha, Char.isUpper, Char.isLower, Bool.or_eq_true,
    Bool.and_eq_true, decide_eq_true_iff, beq_iff_eq, UInt32.le_iff_toNat_le] at h
  rcases h with h | rfl
  · simp only [Char.isDigit, Bool.and_eq_false_iff, decide_eq_false_iff_not,
      UInt32.le_iff_toNat_le]
    simp at h ⊢
    omega
  · rfl

/-- A run of characters is over where another one stands. -/
lemma splitWhile {p : Char → Bool} (htail : ∀ d ∈ tail, p d = true)
    (hrest : ∀ d ∈ rest.head?, p d = false) :
    (tail ++ rest).takeWhile p = tail ∧ (tail ++ rest).dropWhile p = rest := by
  rw [List.takeWhile_append_of_pos htail, List.dropWhile_append_of_pos htail]
  cases rest with
  | nil => simp
  | cons d rest =>
      have hd : ¬ p d = true := by rw [hrest d rfl]; exact Bool.false_ne_true
      rw [List.takeWhile_cons_of_neg hd, List.dropWhile_cons_of_neg hd, List.append_nil]
      exact ⟨rfl, rfl⟩

/-- A bare word is read to its end. -/
lemma lexeme_word (hfirst : beginsName c = true) (htail : ∀ d ∈ tail, continuesName d = true)
    (hrest : ∀ d ∈ rest.head?, continuesName d = false) :
    lexeme c (tail ++ rest) = .ok (ofWord (c :: tail), rest) := by
  obtain ⟨htake, hdrop⟩ := splitWhile htail hrest
  have hother : ∀ d, beginsName d = false → c ≠ d := by
    rintro d hd rfl
    exact Bool.false_ne_true (hd.symm.trans hfirst)
  rw [lexeme, mark?_of_beginsName hfirst]
  simp [hother '!' rfl, hother '\'' rfl, hother '"' rfl, hother '-' rfl, hother '+' rfl,
    hother '.' rfl, isDigit_of_beginsName hfirst, hfirst, htake, hdrop]

lemma ofWord_eq_name {word : List Char}
    (h : ∀ k ∈ keywords, word.map Char.toLower ≠ k.2.toList) :
    ofWord word = .name (String.ofList word) := by
  have hne : ∀ k ∈ keywords, String.ofList (word.map Char.toLower) ≠ k.2 := fun k hk heq =>
    h k hk (by rw [← heq, String.toList_ofList])
  unfold ofWord
  split <;> rename_i heq
  · exact absurd heq (hne (kwSelect, "select") (by simp [keywords]))
  · exact absurd heq (hne (kwFrom, "from") (by simp [keywords]))
  · exact absurd heq (hne (kwWhere, "where") (by simp [keywords]))
  · exact absurd heq (hne (kwAnd, "and") (by simp [keywords]))
  · exact absurd heq (hne (kwOr, "or") (by simp [keywords]))
  · exact absurd heq (hne (kwIn, "in") (by simp [keywords]))
  · rfl

lemma goesOn_of_keywords {t : Token} {lower : String} (h : (t, lower) ∈ keywords) :
    t.goesOn = continuesName := by
  simp only [keywords, List.mem_cons, Prod.mk.injEq, List.not_mem_nil, or_false] at h
  rcases h with ⟨rfl, -⟩ | ⟨rfl, -⟩ | ⟨rfl, -⟩ | ⟨rfl, -⟩ | ⟨rfl, -⟩ | ⟨rfl, -⟩ <;> rfl

lemma ofWord_keyword {t : Token} {lower : String} {word : List Char} (h : (t, lower) ∈ keywords)
    (hcase : word.map Char.toLower = lower.toList) : ofWord word = t := by
  rw [ofWord, hcase, String.ofList_toList]
  simp only [keywords, List.mem_cons, Prod.mk.injEq, List.not_mem_nil, or_false] at h
  rcases h with ⟨rfl, rfl⟩ | ⟨rfl, rfl⟩ | ⟨rfl, rfl⟩ | ⟨rfl, rfl⟩ | ⟨rfl, rfl⟩ | ⟨rfl, rfl⟩ <;> rfl

/-- A keyword is letters only, whatever their case. -/
lemma isAlpha_of_keyword {t : Token} {lower : String} {word : List Char}
    (h : (t, lower) ∈ keywords) (hcase : word.map Char.toLower = lower.toList) :
    word ≠ [] ∧ ∀ d ∈ word, d.isAlpha = true := by
  have hletters : ∀ k ∈ keywords, k.2.toList ≠ [] ∧ ∀ d ∈ k.2.toList, d.isAlpha = true := by
    simp [keywords]
  have hlower := hletters _ h
  rw [← hcase] at hlower
  refine ⟨fun hnil => hlower.1 (by rw [hnil, List.map_nil]), fun d hd => ?_⟩
  rw [← Char.isAlpha_toLower_eq_isAlpha]
  exact hlower.2 _ (List.mem_map_of_mem hd)

end

/-! ## Quoted content -/

/-- A character of quoted content, with what comes behind it. -/
lemma splitQuoted_cons {quote c : Char} (hc : c ≠ quote) {text : List Char} (htext : text ≠ []) :
    splitQuoted quote (c :: text) = addToQuoted c (splitQuoted quote text) := by
  obtain ⟨d, rest, rfl⟩ := List.exists_cons_of_ne_nil htext
  rw [splitQuoted, if_neg hc]

/-- Doubled quotes are undone, and the one that closes the content is the first that is not
doubled. -/
lemma splitQuoted_doubled (quote : Char) (content : List Char) {rest : List Char}
    (hrest : ∀ d ∈ rest.head?, d ≠ quote) :
    splitQuoted quote (doubled quote content ++ quote :: rest) = .ok (content, rest) := by
  induction content with
  | nil =>
      cases rest with
      | nil => simp [doubled, splitQuoted]
      | cons d rest => simp [doubled, splitQuoted, hrest d rfl]
  | cons c content ih =>
      rw [doubled, List.flatMap_cons, ← doubled]
      split_ifs with hc
      · simp only [List.cons_append, List.nil_append]
        rw [splitQuoted, if_pos rfl, if_pos rfl, ih, addToQuoted, hc]
      · simp only [List.cons_append, List.nil_append]
        rw [splitQuoted_cons hc (by simp), ih, addToQuoted]

/-! ## Numbers -/

section

variable {c : Char} {tail rest : List Char}

/-- A number is read to its end. -/
lemma splitNumber_of_isChain
    (h : (c :: tail).IsChain fun last d => continuesNumber last d = true)
    (hrest : ∀ d ∈ rest.head?, ∀ last ∈ (c :: tail).getLast?, continuesNumber last d = false) :
    splitNumber c (tail ++ rest) = (tail, rest) := by
  induction tail generalizing c with
  | nil =>
      cases rest with
      | nil => rfl
      | cons d rest => simp [splitNumber, hrest d rfl c rfl]
  | cons d tail ih =>
      obtain ⟨hd, htail⟩ := List.isChain_cons_cons.mp h
      rw [List.cons_append, splitNumber, if_pos hd, ih htail]
      simpa using hrest

end

end Token

namespace Numeral

/-- The digits that a fraction is made of, and the point in front of them, if there is one. -/
lemma exists_point (text : List Char) :
    (∀ d ∈ (splitFraction text).1, d.isDigit = true) ∧
      (text = (splitFraction text).2 ∧ (splitFraction text).1 = [] ∨
        text = '.' :: (splitFraction text).1 ++ (splitFraction text).2) := by
  unfold splitFraction
  split
  · exact ⟨fun d hd => List.mem_takeWhile_imp hd,
      Or.inr (by rw [List.cons_append, List.takeWhile_append_dropWhile])⟩
  · exact ⟨List.forall_mem_nil _, Or.inl ⟨rfl, rfl⟩⟩

/-- Digits with points among them, where a point in front has a digit behind it. -/
structure Pointed (text : List Char) : Prop where
  ne_nil : text ≠ []
  chars : ∀ d ∈ text, d.isDigit = true ∨ d = '.'
  digit_of_point : ∀ rest, text = '.' :: rest → Token.digitNext rest = true

/-- A numeral is a sign, digits with a point among them, and an exponent. -/
lemma parts_of_read? {text : List Char} (h : (read? text).isSome) :
    ∃ sign ∈ signs, ∃ pointed power, text = sign ++ (pointed ++ power) ∧ Pointed pointed ∧
      (exponent? power).isSome := by
  obtain ⟨sign, hsign, htext⟩ := exists_sign text
  rw [read?] at h
  generalize splitSign text = split at h htext
  obtain ⟨negative, body⟩ := split
  dsimp only at h htext
  have hwhole : ∀ d ∈ body.takeWhile Char.isDigit, d.isDigit = true := fun d hd =>
    List.mem_takeWhile_imp hd
  have hbody := (List.takeWhile_append_dropWhile (p := Char.isDigit) (l := body)).symm
  generalize body.takeWhile Char.isDigit = whole at h hwhole hbody
  obtain ⟨hfraction, hpoint⟩ := exists_point (body.dropWhile Char.isDigit)
  generalize splitFraction (body.dropWhile Char.isDigit) = parts at h hfraction hpoint
  obtain ⟨fraction, power⟩ := parts
  dsimp only at h hfraction hpoint
  split_ifs at h with hempty
  · cases h
  rw [Option.isSome_map] at h
  rcases hpoint with ⟨hdrop, rfl⟩ | hdrop
  · have hne : whole ≠ [] := by simpa using hempty
    refine ⟨sign, hsign, whole, power, by rw [htext, hbody, hdrop], ⟨hne, ?_, ?_⟩, h⟩
    · exact fun d hd => Or.inl (hwhole d hd)
    · rintro rest rfl
      cases hwhole '.' List.mem_cons_self
  · refine ⟨sign, hsign, whole ++ '.' :: fraction, power, ?_, ⟨by simp, ?_, ?_⟩, h⟩
    · rw [htext, hbody, hdrop, List.append_assoc]
    · intro d hd
      rcases List.mem_append.mp hd with hd | hd
      · exact Or.inl (hwhole d hd)
      · exact (List.mem_cons.mp hd).elim Or.inr fun hd => Or.inl (hfraction d hd)
    · intro rest hrest
      cases whole with
      | nil =>
          obtain ⟨d, fraction, rfl⟩ : ∃ d tail, fraction = d :: tail :=
            List.exists_cons_of_ne_nil (by simpa using hempty)
          cases hrest
          exact hfraction d List.mem_cons_self
      | cons d whole =>
          cases hrest
          cases hwhole '.' List.mem_cons_self

end Numeral

namespace Token

/-! ### How a number runs on -/

lemma isChain_of_forall (c : Char) {tail : List Char}
    (h : ∀ d ∈ tail, d.isAlphanum = true ∨ d = '.') :
    (c :: tail).IsChain fun last d => continuesNumber last d = true := by
  induction tail generalizing c with
  | nil => exact List.isChain_singleton c
  | cons d tail ih =>
      obtain ⟨hd, htail⟩ := List.forall_mem_cons.mp h
      refine List.isChain_cons_cons.mpr ⟨?_, ih d htail⟩
      rcases hd with hd | rfl <;> simp [continuesNumber, *]

lemma isAlphanum_of_isDigit {d : Char} (h : d.isDigit = true) : d.isAlphanum = true := by
  simp [Char.isAlphanum, h]

/-- A sign may stand right behind the mark of an exponent. -/
lemma isChain_exponent {mark : Char} {power : List Char}
    (h : (Numeral.exponent? (mark :: power)).isSome) :
    mark.isAlphanum = true ∧
      (mark :: power).IsChain fun last d => continuesNumber last d = true := by
  rw [Numeral.exponent?] at h
  split_ifs at h with hmark
  · obtain ⟨sign, hsign, digits, rfl, -, hdigits⟩ := Numeral.digits_of_integer? h
    have htail : ∀ c, (c :: digits).IsChain fun last d => continuesNumber last d = true := fun c =>
      isChain_of_forall c fun d hd => Or.inl (isAlphanum_of_isDigit (hdigits d hd))
    refine ⟨by rcases hmark with rfl | rfl <;> rfl, ?_⟩
    simp only [Numeral.signs, List.mem_cons, List.not_mem_nil, or_false] at hsign
    rcases hsign with rfl | rfl | rfl
    · exact htail mark
    all_goals
      refine List.isChain_cons_cons.mpr ⟨?_, htail _⟩
      rcases hmark with rfl | rfl <;> rfl
  · cases h

/-- What a numeral begins with, and that it runs on to its end. -/
lemma lead_of_isNumeral {n : String} (h : isNumeral n = true) :
    ∃ c tail, n.toList = c :: tail ∧ (c.isDigit || c == '-' || c == '+' || c == '.') = true ∧
      (c = '.' → digitNext tail = true) ∧
      (c :: tail).IsChain fun last d => continuesNumber last d = true := by
  obtain ⟨sign, hsign, pointed, power, htext, hpointed, hpower⟩ := Numeral.parts_of_read? h
  obtain ⟨b, body, rfl⟩ := List.exists_cons_of_ne_nil hpointed.ne_nil
  obtain ⟨hb, hbody⟩ := List.forall_mem_cons.mp hpointed.chars
  have hplain : ∀ d ∈ body, d.isAlphanum = true ∨ d = '.' := fun d hd =>
    (hbody d hd).imp_left isAlphanum_of_isDigit
  have hchain : (b :: (body ++ power)).IsChain fun last d => continuesNumber last d = true := by
    cases power with
    | nil =>
        rw [List.append_nil]
        exact isChain_of_forall b hplain
    | cons mark power =>
        obtain ⟨hmark, htail⟩ := isChain_exponent hpower
        refine List.isChain_cons_split.mpr ⟨isChain_of_forall b ?_, htail⟩
        simpa [or_imp, forall_and, hmark] using hplain
  have hsigned : ∀ s, (s :: b :: (body ++ power)).IsChain
      fun last d => continuesNumber last d = true := fun s => by
    refine List.isChain_cons_cons.mpr ⟨?_, hchain⟩
    rcases hb with hb | rfl
    · simp [continuesNumber, isAlphanum_of_isDigit hb]
    · simp [continuesNumber]
  simp only [Numeral.signs, List.mem_cons, List.not_mem_nil, or_false] at hsign
  rcases hsign with rfl | rfl | rfl
  · refine ⟨b, body ++ power, htext, ?_, ?_, hchain⟩
    · rcases hb with hb | rfl <;> simp [*]
    · rintro rfl
      have hdigit := hpointed.digit_of_point body rfl
      cases body with
      | nil => cases hdigit
      | cons d body => exact hdigit
  · exact ⟨'-', _, htext, rfl, fun h => absurd h (by decide), hsigned '-'⟩
  · exact ⟨'+', _, htext, rfl, fun h => absurd h (by decide), hsigned '+'⟩

/-! ## Lexemes -/

/-- What a spelling is read as in front of `rest`: it is no blank that it begins with, and it is
read as the token. -/
def ReadAs (t : Token) (word rest : List Char) : Prop :=
  ∃ c tail, word = c :: tail ∧ isBlank c = false ∧ lexeme c (tail ++ rest) = .ok (t, rest)

variable {t : Token} {word rest : List Char}

lemma isBlank_of_beginsName {c : Char} (h : beginsName c = true) : isBlank c = false := by
  by_contra hblank
  simp only [isBlank, Bool.not_eq_false, Bool.or_eq_true, beq_iff_eq] at hblank
  rcases hblank with (((rfl | rfl) | rfl) | rfl) | rfl <;> cases h

lemma readAs_word {c : Char} {tail : List Char} (hfirst : beginsName c = true)
    (htail : ∀ d ∈ tail, continuesName d = true)
    (hrest : ∀ d ∈ rest.head?, continuesName d = false) :
    ReadAs (ofWord (c :: tail)) (c :: tail) rest :=
  ⟨c, tail, rfl, isBlank_of_beginsName hfirst, lexeme_word hfirst htail hrest⟩

lemma readAs_keyword {lower : String} (h : (t, lower) ∈ keywords)
    (hcase : word.map Char.toLower = lower.toList) (hends : EndsBefore t rest) :
    ReadAs t word rest := by
  obtain ⟨hne, hletters⟩ := isAlpha_of_keyword h hcase
  obtain ⟨c, tail, rfl⟩ := List.exists_cons_of_ne_nil hne
  obtain ⟨hc, htail⟩ := List.forall_mem_cons.mp hletters
  have hrest : ∀ d ∈ rest.head?, continuesName d = false := by
    rwa [EndsBefore, goesOn_of_keywords h] at hends
  have hfirst : beginsName c = true := by simp [beginsName, hc]
  have hread := readAs_word hfirst (fun d hd => continuesName_of_isAlpha (htail d hd)) hrest
  rwa [ofWord_keyword h hcase] at hread

lemma mark?_number {c : Char} (hc : (c.isDigit || c == '-' || c == '+' || c == '.') = true)
    (hpoint : c = '.' → digitNext rest = true) : mark? c rest = none := by
  unfold mark?
  split
  case h_12 => rw [if_pos (hpoint rfl)]
  case h_13 => rfl
  all_goals cases hc

lemma lexeme_number {c : Char} (hc : (c.isDigit || c == '-' || c == '+' || c == '.') = true)
    (hpoint : c = '.' → digitNext rest = true) : lexeme c rest = numberLexeme c rest := by
  have hother : ∀ d, (d.isDigit || d == '-' || d == '+' || d == '.') = false → c ≠ d := by
    rintro d hd rfl
    exact Bool.false_ne_true (hd.symm.trans hc)
  rw [lexeme, mark?_number hc hpoint]
  simp only [beq_iff_eq, hother '!' rfl, hother '\'' rfl, hother '"' rfl, if_false]
  rw [if_pos hc]

lemma readAs_number {n : String} (h : isNumeral n = true) (hends : EndsBefore (.number n) rest) :
    ReadAs (.number n) n.toList rest := by
  obtain ⟨c, tail, htext, hc, hpoint, hchain⟩ := lead_of_isNumeral h
  have hsplit : splitNumber c (tail ++ rest) = (tail, rest) := by
    refine splitNumber_of_isChain hchain fun d hd last hlast => ?_
    have hgoes := hends d hd
    simp only [goesOn, htext, Option.mem_def.mp hlast] at hgoes
    exact hgoes
  have hdigit : c = '.' → digitNext (tail ++ rest) = true := fun hdot => by
    cases tail with
    | nil => cases hpoint hdot
    | cons d tail => exact hpoint hdot
  refine ⟨c, tail, htext, ?_, ?_⟩
  · by_contra hblank
    simp only [isBlank, Bool.not_eq_false, Bool.or_eq_true, beq_iff_eq] at hblank
    rcases hblank with (((rfl | rfl) | rfl) | rfl) | rfl <;> cases hc
  · rw [lexeme_number hc hdigit, numberLexeme, hsplit]
    simp only [← htext, String.ofList_toList, h, if_true]

lemma mark?_dot (h : EndsBefore dot rest) : mark? '.' rest = some (dot, rest) := by
  have hdigit : digitNext rest = false := by
    cases rest with
    | nil => rfl
    | cons d rest => exact h d rfl
  simp [mark?, hdigit]

lemma mark?_lt (h : EndsBefore lt rest) : mark? '<' rest = some (lt, rest) := by
  unfold mark?
  split
  case h_6 => exact absurd (h '=' rfl) (by decide)
  case h_7 => exact absurd (h '>' rfl) (by decide)
  case h_8 => rfl
  all_goals contradiction

lemma mark?_gt (h : EndsBefore gt rest) : mark? '>' rest = some (gt, rest) := by
  unfold mark?
  split
  case h_9 => exact absurd (h '=' rfl) (by decide)
  case h_10 => rfl
  all_goals contradiction

lemma readAs_mark (h : (t, word) ∈ marks) (hends : EndsBefore t rest) : ReadAs t word rest := by
  simp only [marks, List.mem_cons, Prod.mk.injEq, List.not_mem_nil, or_false] at h
  rcases h with ⟨rfl, rfl⟩ | ⟨rfl, rfl⟩ | ⟨rfl, rfl⟩ | ⟨rfl, rfl⟩ | ⟨rfl, rfl⟩ | ⟨rfl, rfl⟩ |
    ⟨rfl, rfl⟩ | ⟨rfl, rfl⟩ | ⟨rfl, rfl⟩ | ⟨rfl, rfl⟩ | ⟨rfl, rfl⟩ | ⟨rfl, rfl⟩
  case inr.inr.inl =>
    exact ⟨'.', [], rfl, rfl, by rw [List.nil_append, lexeme, mark?_dot hends]⟩
  case inr.inr.inr.inr.inr.inr.inr.inr.inl =>
    exact ⟨'<', [], rfl, rfl, by rw [List.nil_append, lexeme, mark?_lt hends]⟩
  case inr.inr.inr.inr.inr.inr.inr.inr.inr.inr.inl =>
    exact ⟨'>', [], rfl, rfl, by rw [List.nil_append, lexeme, mark?_gt hends]⟩
  all_goals exact ⟨_, _, rfl, rfl, rfl⟩

lemma readAs_quoted {quote : Char} {token : String → Token} {s : String}
    (hblank : isBlank quote = false)
    (hlexeme : ∀ text, lexeme quote text = quotedLexeme quote token text)
    (hgoes : ∀ s, (token s).goesOn = (· == quote)) (hends : EndsBefore (token s) rest) :
    ReadAs (token s) (quoted quote s) rest := by
  have hrest : ∀ d ∈ rest.head?, d ≠ quote := fun d hd => by
    simpa [hgoes] using hends d hd
  refine ⟨quote, _, rfl, hblank, ?_⟩
  rw [hlexeme, List.append_assoc, quotedLexeme]
  simp only [List.cons_append, List.nil_append]
  rw [splitQuoted_doubled quote s.toList hrest]
  simp only [String.ofList_toList]

/-- **A token is read back from its spelling**, where it ends. -/
theorem readAs_of_spelledBy (h : t.SpelledBy word) (hends : EndsBefore t rest) :
    ReadAs t word rest := by
  cases h with
  | @name c tail hfirst htail hword =>
      have hread := readAs_word hfirst htail hends
      rwa [ofWord_eq_name hword] at hread
  | quotedName s => exact readAs_quoted rfl (fun _ => rfl) (fun _ => rfl) hends
  | string s => exact readAs_quoted rfl (fun _ => rfl) (fun _ => rfl) hends
  | number hn => exact readAs_number hn hends
  | keyword hk hcase => exact readAs_keyword hk hcase hends
  | mark hm => exact readAs_mark hm hends

/-! ## Texts -/

/-- A text spells tokens, with blanks around them.  `ends` says what may stand behind a spelling. -/
inductive Spelt (ends : Token → List Char → Prop) : List Token → List Char → Prop
  | nil {blanks : List Char} (hblanks : ∀ b ∈ blanks, isBlank b = true) : Spelt ends [] blanks
  | cons {t : Token} {ts : List Token} {blanks word rest : List Char}
      (hblanks : ∀ b ∈ blanks, isBlank b = true) (hword : t.SpelledBy word) (hends : ends t rest)
      (hrest : Spelt ends ts rest) : Spelt ends (t :: ts) (blanks ++ (word ++ rest))

/-- One blank or more stand behind each token, or nothing. -/
def Spaced : List Token → List Char → Prop :=
  Spelt fun _ rest => ∀ d ∈ rest.head?, isBlank d = true

variable {ts : List Token} {text : List Char}

lemma Spelt.imp {ends ends' : Token → List Char → Prop}
    (himp : ∀ t rest, ends t rest → ends' t rest) (h : Spelt ends ts text) :
    Spelt ends' ts text := by
  induction h with
  | nil hblanks => exact .nil hblanks
  | cons hblanks hword hends _ ih => exact .cons hblanks hword (himp _ _ hends) ih

lemma Spelt.blank {ends : Token → List Char → Prop} (h : Spelt ends ts text) {b : Char}
    (hb : isBlank b = true) : Spelt ends ts (b :: text) := by
  cases h with
  | nil hblanks => exact .nil (List.forall_mem_cons.mpr ⟨hb, hblanks⟩)
  | cons hblanks hword hends hrest =>
      exact .cons (List.forall_mem_cons.mpr ⟨hb, hblanks⟩) hword hends hrest

/-- No token goes on over a blank. -/
lemma Spaced.spelt (h : Spaced ts text) : Spelt EndsBefore ts text :=
  Spelt.imp (fun t _ hgap d hd => goesOn_blank (hgap d hd) t) h

lemma exists_spaced (h : ∀ t ∈ ts, t.Spellable) : ∃ text, Spaced ts (' ' :: text) := by
  have hblank : ∀ b ∈ [' '], isBlank b = true := by simp [isBlank]
  induction ts with
  | nil => exact ⟨[], .nil hblank⟩
  | cons t ts ih =>
      obtain ⟨⟨word, hword⟩, hts⟩ := List.forall_mem_cons.mp h
      obtain ⟨rest, hrest⟩ := ih hts
      exact ⟨word ++ ' ' :: rest, .cons hblank hword (by simp [isBlank]) hrest⟩

lemma tokens_blanks {blanks : List Char} (hblanks : ∀ b ∈ blanks, isBlank b = true) :
    tokens (blanks ++ rest) = tokens rest := by
  induction blanks with
  | nil => rfl
  | cons b blanks ih =>
      obtain ⟨hb, hblanks⟩ := List.forall_mem_cons.mp hblanks
      rw [List.cons_append, tokens, if_pos hb, ih hblanks]

lemma tokens_word (h : ReadAs t word rest) (hrest : tokens rest = .ok ts) :
    tokens (word ++ rest) = .ok (t :: ts) := by
  obtain ⟨c, tail, rfl, hblank, hlexeme⟩ := h
  rw [List.cons_append, tokens, hblank, hlexeme]
  simp [hrest]

/-- **The tokens of a text are the ones that it spells.** -/
theorem tokens_of_spelt (h : Spelt EndsBefore ts text) : tokens text = .ok ts := by
  induction h with
  | @nil blanks hblanks => rw [← List.append_nil blanks, tokens_blanks hblanks, tokens]
  | cons hblanks hword hends _ ih =>
      rw [tokens_blanks hblanks]
      exact tokens_word (readAs_of_spelledBy hword hends) ih

/-! ## What is read was spelled -/

/-- A token and what is left behind it, as read off a text. -/
def SpelledOff (t : Token) (text rest : List Char) : Prop :=
  ∃ word, text = word ++ rest ∧ t.SpelledBy word ∧ EndsBefore t rest

lemma doubled_of_splitQuoted {quote : Char} {text content rest : List Char}
    (h : splitQuoted quote text = .ok (content, rest)) :
    text = doubled quote content ++ quote :: rest ∧ ∀ d ∈ rest.head?, d ≠ quote := by
  induction text using splitQuoted.induct quote generalizing content rest with
  | case1 => cases h
  | case2 =>
      rw [splitQuoted, if_pos rfl] at h
      cases h
      exact ⟨rfl, by simp⟩
  | case3 c hc =>
      rw [splitQuoted, if_neg hc] at h
      cases h
  | case4 tail ih =>
      rw [splitQuoted, if_pos rfl, if_pos rfl] at h
      cases hs : splitQuoted quote tail with
      | error f => simp [hs, addToQuoted] at h
      | ok p =>
          simp only [hs, addToQuoted, Except.ok.injEq, Prod.mk.injEq] at h
          obtain ⟨rfl, rfl⟩ := h
          obtain ⟨htail, hrest⟩ := ih hs
          exact ⟨by simp [doubled, htail], hrest⟩
  | case5 d tail hd =>
      rw [splitQuoted, if_pos rfl, if_neg hd] at h
      cases h
      exact ⟨rfl, by simpa using hd⟩
  | case6 c d tail hc ih =>
      rw [splitQuoted, if_neg hc] at h
      cases hs : splitQuoted quote (d :: tail) with
      | error f => simp [hs, addToQuoted] at h
      | ok p =>
          simp only [hs, addToQuoted, Except.ok.injEq, Prod.mk.injEq] at h
          obtain ⟨rfl, rfl⟩ := h
          obtain ⟨htail, hrest⟩ := ih hs
          exact ⟨by simp [doubled, hc, htail], hrest⟩

lemma spelledOff_quoted {quote : Char} {token : String → Token} {text : List Char}
    (hspelled : ∀ s, (token s).SpelledBy (quoted quote s))
    (hgoes : ∀ s, (token s).goesOn = (· == quote))
    (h : quotedLexeme quote token text = .ok (t, rest)) : SpelledOff t (quote :: text) rest := by
  rw [quotedLexeme] at h
  split at h
  · rename_i content tail hs
    cases h
    obtain ⟨rfl, hrest⟩ := doubled_of_splitQuoted hs
    refine ⟨_, ?_, hspelled (String.ofList content), fun d hd => ?_⟩
    · simp [quoted]
    · simpa [hgoes] using hrest d hd
  · cases h

lemma ends_of_splitNumber (c : Char) (text : List Char) :
    text = (splitNumber c text).1 ++ (splitNumber c text).2 ∧
      ∀ d ∈ (splitNumber c text).2.head?, ∀ last ∈ (c :: (splitNumber c text).1).getLast?,
        continuesNumber last d = false := by
  induction text generalizing c with
  | nil => exact ⟨rfl, by simp [splitNumber]⟩
  | cons d text ih =>
      rw [splitNumber]
      split_ifs with hd
      · obtain ⟨htext, hends⟩ := ih d
        exact ⟨congrArg (d :: ·) htext, by simpa using hends⟩
      · exact ⟨rfl, by simpa using hd⟩

lemma spelledOff_number {c : Char} {text : List Char}
    (h : numberLexeme c text = .ok (t, rest)) : SpelledOff t (c :: text) rest := by
  obtain ⟨htext, hends⟩ := ends_of_splitNumber c text
  rw [numberLexeme] at h
  split at h
  · rename_i hnumeral
    cases h
    refine ⟨c :: (splitNumber c text).1, congrArg (c :: ·) htext, ?_, fun d hd => ?_⟩
    · simpa using SpelledBy.number hnumeral
    · simp only [goesOn, String.toList_ofList]
      cases hlast : (c :: (splitNumber c text).1).getLast? with
      | none => rfl
      | some last => exact hends d hd last hlast
  · cases h

lemma spelledOff_word {c : Char} (hc : beginsName c = true) (text : List Char) :
    SpelledOff (ofWord (c :: text.takeWhile continuesName)) (c :: text)
      (text.dropWhile continuesName) := by
  have htext : c :: text = c :: text.takeWhile continuesName ++ text.dropWhile continuesName := by
    rw [List.cons_append, List.takeWhile_append_dropWhile]
  have hrest : ∀ d ∈ (text.dropWhile continuesName).head?, continuesName d = false := fun d hd => by
    have hnot := List.head?_dropWhile_not continuesName text
    rw [Option.mem_def.mp hd] at hnot
    simpa using hnot
  by_cases hkeyword : ∃ k ∈ keywords,
      (c :: text.takeWhile continuesName).map Char.toLower = k.2.toList
  · obtain ⟨⟨t, lower⟩, hk, hcase⟩ := hkeyword
    rw [ofWord_keyword hk hcase]
    exact ⟨_, htext, .keyword hk hcase, by rwa [EndsBefore, goesOn_of_keywords hk]⟩
  · rw [ofWord_eq_name fun k hk hcase => hkeyword ⟨k, hk, hcase⟩]
    exact ⟨_, htext, .name hc (fun d hd => List.mem_takeWhile_imp hd)
      fun k hk hcase => hkeyword ⟨k, hk, hcase⟩, hrest⟩

lemma spelledOff_mark {c : Char} {text : List Char} (h : mark? c text = some (t, rest)) :
    SpelledOff t (c :: text) rest := by
  unfold mark? at h
  split at h
  case h_8 hle hne =>
    cases h
    refine ⟨['<'], rfl, .mark (by simp [marks]), fun d hd => ?_⟩
    obtain ⟨tail, rfl⟩ := List.head?_eq_some_iff.mp hd
    simp only [goesOn, Bool.or_eq_false_iff, beq_eq_false_iff_ne]
    exact ⟨fun heq => hle tail (heq ▸ rfl), fun heq => hne tail (heq ▸ rfl)⟩
  case h_10 hge =>
    cases h
    refine ⟨['>'], rfl, .mark (by simp [marks]), fun d hd => ?_⟩
    obtain ⟨tail, rfl⟩ := List.head?_eq_some_iff.mp hd
    simp only [goesOn, beq_eq_false_iff_ne]
    exact fun heq => hge tail (heq ▸ rfl)
  case h_12 =>
    split_ifs at h with hdigit
    cases h
    refine ⟨['.'], rfl, .mark (by simp [marks]), fun d hd => ?_⟩
    obtain ⟨tail, rfl⟩ := List.head?_eq_some_iff.mp hd
    exact Bool.eq_false_iff.mpr hdigit
  case h_13 => cases h
  all_goals
    cases h
    first
      | exact ⟨[_], rfl, .mark (by simp [marks]), fun _ _ => rfl⟩
      | exact ⟨[_, _], rfl, .mark (by simp [marks]), fun _ _ => rfl⟩

/-- **What is read as a token is its spelling**, and the token ends there. -/
theorem spelledOff_of_lexeme {c : Char} {text : List Char} (h : lexeme c text = .ok (t, rest)) :
    SpelledOff t (c :: text) rest := by
  unfold lexeme at h
  split at h
  · rename_i marked hmark
    cases h
    exact spelledOff_mark hmark
  split_ifs at h with _ hstring hname _ hword
  · rw [beq_iff_eq] at hstring
    subst hstring
    exact spelledOff_quoted .string (fun _ => rfl) h
  · rw [beq_iff_eq] at hname
    subst hname
    exact spelledOff_quoted .quotedName (fun _ => rfl) h
  · exact spelledOff_number h
  · cases h
    exact spelledOff_word hword text

/-- **A text spells the tokens that it is read as.** -/
theorem spelt_of_tokens (h : tokens text = .ok ts) : Spelt EndsBefore ts text := by
  fun_induction tokens text generalizing ts with
  | case1 => cases h; exact .nil (List.forall_mem_nil _)
  | case2 c rest hblank ih => exact (ih h).blank hblank
  | case3 => cases h
  | case4 => cases h
  | case5 c rest hblank t tail hlexeme ts' htail ih =>
      cases h
      obtain ⟨word, hword, hspelled, hends⟩ := spelledOff_of_lexeme hlexeme
      rw [hword, ← List.nil_append (_ ++ _)]
      exact .cons (List.forall_mem_nil _) hspelled hends (ih htail)

/-- What is read can be written. -/
lemma Spelt.spellable {ends : Token → List Char → Prop} (h : Spelt ends ts text) :
    ∀ t ∈ ts, t.Spellable := by
  induction h with
  | nil => exact List.forall_mem_nil _
  | cons _ hword _ _ ih => exact List.forall_mem_cons.mpr ⟨⟨_, hword⟩, ih⟩

end Token

end ItemStore
