import ItemStore.Proofs.Lexemes

/-!
# How texts are laid out

A text that is read as tokens consists of the spellings of these tokens, in their order, with blanks
in front of, between and behind them, and of nothing else.  A layout of a text is such a division.
The tokens of a text are the ones of its layouts, and it has at most one of them.

* `Token.Piece`, `Token.Layout` — blanks, and then tokens with the blanks behind each.
* `Token.Layout.Valid` — every token is spelled, and is over where the next character stands.
* `Token.goesOn_number` — for a number this does not depend on how it ends.
* `Token.Layout.Valid.spelt`, `Token.exists_layout_of_spelt` — layouts and spellings.
* `Token.Layout.eq_of_text_eq` — a text has one layout.
* **`Token.tokens_layout`** — tokens are read exactly off the texts that are laid out so.
-/

namespace ItemStore

namespace Token

/-! ## Layouts -/

/-- A token in a text: its spelling, and the blanks behind it. -/
structure Piece where
  token : Token
  word : List Char
  gap : List Char

/-- A text in pieces: blanks, and then tokens with the blanks behind each. -/
structure Layout where
  gap : List Char
  pieces : List Piece

namespace Piece

def text (p : Piece) : List Char := p.word ++ p.gap

/-- A piece in front of the rest of a text: the token is spelled, and it is over behind its
spelling, where a blank or the rest begins. -/
structure Fits (p : Piece) (rest : List Char) : Prop where
  spelled : p.token.SpelledBy p.word
  blank : ∀ b ∈ p.gap, isBlank b = true
  ends : EndsBefore p.token (p.gap ++ rest)

/-- Each piece fits in front of those behind it. -/
def AllFit : List Piece → Prop
  | [] => True
  | p :: ps => p.Fits (ps.flatMap text) ∧ AllFit ps

end Piece

namespace Layout

def text (l : Layout) : List Char := l.gap ++ l.pieces.flatMap Piece.text

def tokens (l : Layout) : List Token := l.pieces.map Piece.token

structure Valid (l : Layout) : Prop where
  blank : ∀ b ∈ l.gap, isBlank b = true
  fits : Piece.AllFit l.pieces

end Layout

/-! ## Numbers go on alike -/

/-- A numeral ends with a digit or its point. -/
lemma last_of_isNumeral {n : String} (h : isNumeral n = true) :
    ∃ last, n.toList.getLast? = some last ∧ (last.isDigit = true ∨ last = '.') := by
  obtain ⟨sign, _, pointed, power, htext, hpointed, hpower⟩ := Numeral.parts_of_read? h
  obtain ⟨front, run, hrun, hne, hlast⟩ : ∃ front run, n.toList = front ++ run ∧ run ≠ [] ∧
      ∀ d ∈ run, d.isDigit = true ∨ d = '.' := by
    cases power with
    | nil =>
        exact ⟨sign, pointed, by rw [htext, List.append_nil], hpointed.ne_nil, hpointed.chars⟩
    | cons mark power =>
        rw [Numeral.exponent?] at hpower
        split_ifs at hpower
        · obtain ⟨sign', _, digits, rfl, hne, hdigits⟩ := Numeral.digits_of_integer? hpower
          exact ⟨sign ++ (pointed ++ mark :: sign'), digits, by simp [htext], hne,
            fun d hd => Or.inl (hdigits d hd)⟩
        · cases hpower
  refine ⟨run.getLast hne, ?_, hlast _ (List.getLast_mem _)⟩
  rw [hrun, List.getLast?_append_of_ne_nil _ hne, List.getLast?_eq_some_getLast]

/-- A number goes on over letters, digits and points, and over no sign. -/
theorem goesOn_number {n : String} (h : isNumeral n = true) (d : Char) :
    (number n).goesOn d = (d.isAlphanum || d == '.') := by
  obtain ⟨last, hlast, hdigit⟩ := last_of_isNumeral h
  have hmark : (last == 'e' || last == 'E') = false := by
    rw [Bool.or_eq_false_iff, beq_eq_false_iff_ne, beq_eq_false_iff_ne]
    rcases hdigit with hdigit | rfl
    · constructor <;> rintro rfl <;> cases hdigit
    · decide
  have hgoes : (number n).goesOn d = continuesNumber last d := by
    rw [goesOn, hlast]
    rfl
  rw [hgoes, continuesNumber, hmark, Bool.false_and, Bool.or_false]

/-! ## Layouts and spellings -/

variable {ts : List Token} {text : List Char}

/-- A layout is a spelling of its tokens. -/
theorem Layout.Valid.spelt {l : Layout} (h : l.Valid) : Spelt EndsBefore l.tokens l.text := by
  obtain ⟨gap, pieces⟩ := l
  obtain ⟨hblank, hfits⟩ := h
  induction pieces generalizing gap with
  | nil =>
      rw [Layout.text, List.flatMap_nil, List.append_nil]
      exact .nil hblank
  | cons p ps ih =>
      obtain ⟨hp, hps⟩ := hfits
      rw [Layout.text, List.flatMap_cons, Piece.text, List.append_assoc]
      exact .cons hblank hp.spelled hp.ends (ih p.gap hp.blank hps)

theorem exists_layout_of_spelt (h : Spelt EndsBefore ts text) :
    ∃ l : Layout, l.Valid ∧ l.tokens = ts ∧ l.text = text := by
  induction h with
  | @nil blanks hblanks => exact ⟨⟨blanks, []⟩, ⟨hblanks, trivial⟩, rfl, List.append_nil blanks⟩
  | @cons t ts blanks word rest hblanks hword hends _ ih =>
      obtain ⟨⟨gap, pieces⟩, ⟨hblank, hfits⟩, rfl, rfl⟩ := ih
      refine ⟨⟨blanks, ⟨t, word, gap⟩ :: pieces⟩, ⟨hblanks, ⟨hword, hblank, hends⟩, hfits⟩, rfl, ?_⟩
      rw [Layout.text, List.flatMap_cons, Piece.text, List.append_assoc]
      rfl

/-! ## A text has one layout -/

/-- Blanks are over where something else stands. -/
lemma gap_unique {gap gap' rest rest' : List Char} (hgap : ∀ b ∈ gap, isBlank b = true)
    (hgap' : ∀ b ∈ gap', isBlank b = true) (hrest : ∀ c ∈ rest.head?, isBlank c = false)
    (hrest' : ∀ c ∈ rest'.head?, isBlank c = false) (h : gap ++ rest = gap' ++ rest') :
    gap = gap' ∧ rest = rest' := by
  obtain ⟨htake, hdrop⟩ := splitWhile hgap hrest
  obtain ⟨htake', hdrop'⟩ := splitWhile hgap' hrest'
  rw [h] at htake hdrop
  exact ⟨htake.symm.trans htake', hdrop.symm.trans hdrop'⟩

/-- One token is spelled in front of a text, and in one way. -/
lemma word_unique {t t' : Token} {word word' rest rest' : List Char} (hword : t.SpelledBy word)
    (hword' : t'.SpelledBy word') (hends : EndsBefore t rest) (hends' : EndsBefore t' rest')
    (h : word ++ rest = word' ++ rest') : t = t' ∧ word = word' ∧ rest = rest' := by
  obtain ⟨c, tail, rfl, _, hlexeme⟩ := readAs_of_spelledBy hword hends
  obtain ⟨c', tail', rfl, _, hlexeme'⟩ := readAs_of_spelledBy hword' hends'
  rw [List.cons_append, List.cons_append, List.cons.injEq] at h
  obtain ⟨rfl, htail⟩ := h
  rw [htail, hlexeme', Except.ok.injEq, Prod.mk.injEq] at hlexeme
  obtain ⟨rfl, rfl⟩ := hlexeme
  exact ⟨rfl, congrArg (c :: ·) (List.append_cancel_right htail), rfl⟩

namespace Piece

/-- What fits begins with a character that is no blank. -/
lemma AllFit.exists_cons {p : Piece} {ps : List Piece} (h : AllFit (p :: ps)) :
    ∃ c rest, (p :: ps).flatMap Piece.text = c :: rest ∧ isBlank c = false := by
  obtain ⟨c, tail, hword, hblank, _⟩ := readAs_of_spelledBy h.1.spelled h.1.ends
  exact ⟨c, _, by rw [List.flatMap_cons, Piece.text, hword]; rfl, hblank⟩

lemma AllFit.head? {ps : List Piece} (h : AllFit ps) :
    ∀ c ∈ (ps.flatMap Piece.text).head?, isBlank c = false := by
  cases ps with
  | nil => simp
  | cons p ps =>
      obtain ⟨c, rest, htext, hblank⟩ := h.exists_cons
      simp [htext, hblank]

end Piece

/-- **A text has at most one layout.** -/
theorem Layout.eq_of_text_eq {l l' : Layout} (h : l.Valid) (h' : l'.Valid)
    (htext : l.text = l'.text) : l = l' := by
  obtain ⟨gap, ps⟩ := l
  obtain ⟨gap', ps'⟩ := l'
  obtain ⟨hblank, hfits⟩ := h
  obtain ⟨hblank', hfits'⟩ := h'
  induction ps generalizing gap gap' ps' with
  | nil =>
      obtain ⟨rfl, hrest⟩ := gap_unique hblank hblank' hfits.head? hfits'.head? htext
      cases ps' with
      | nil => rfl
      | cons p' ps' =>
          obtain ⟨c, rest, hcons, _⟩ := hfits'.exists_cons
          rw [hcons] at hrest
          cases hrest
  | cons p ps ih =>
      obtain ⟨rfl, hrest⟩ := gap_unique hblank hblank' hfits.head? hfits'.head? htext
      cases ps' with
      | nil =>
          obtain ⟨c, rest, hcons, _⟩ := hfits.exists_cons
          rw [hcons] at hrest
          cases hrest
      | cons p' ps' =>
          -- the first words are one, and the gaps behind them begin the layouts of what is left
          obtain ⟨t, word, next⟩ := p
          obtain ⟨t', word', next'⟩ := p'
          obtain ⟨hp, hps⟩ := hfits
          obtain ⟨hp', hps'⟩ := hfits'
          simp only [List.flatMap_cons, Piece.text, List.append_assoc] at hrest
          obtain ⟨rfl, rfl, htail⟩ := word_unique hp.spelled hp'.spelled hp.ends hp'.ends hrest
          have heq := ih next next' ps' htail hp.blank hps hp'.blank hps'
          rw [Layout.mk.injEq] at heq ⊢
          exact ⟨rfl, by rw [heq.1, heq.2]⟩

/-- **Tokens are read off the layout of a text.**  They are read exactly if the text can be laid out
as their spellings with blanks around them, where each token is over before the character that
stands behind it: a bare name or a keyword before one that no name goes on with, a number before one
that is no letter, digit or point, a quoted text before any but its own quote, and a mark before any
that would not make it a longer one or, if it is a point, a number.  There is only one such
layout. -/
theorem tokens_layout (text : List Char) :
    (∀ ts, Token.tokens text = .ok ts ↔ ∃ l : Layout, l.Valid ∧ l.tokens = ts ∧ l.text = text) ∧
      (∀ l l' : Layout, l.Valid → l'.Valid → l.text = text → l'.text = text → l = l') ∧
      ∀ n d, isNumeral n = true → (number n).goesOn d = (d.isAlphanum || d == '.') := by
  refine ⟨fun ts => ⟨fun h => exists_layout_of_spelt (spelt_of_tokens h), ?_⟩,
    fun l l' h h' htext htext' => Layout.eq_of_text_eq h h' (htext.trans htext'.symm),
    fun n d h => goesOn_number h d⟩
  rintro ⟨l, hl, rfl, rfl⟩
  exact tokens_of_spelt hl.spelt

/-- `a<= 'b''s'`: one blank, a mark that could be a shorter one, and a quote that is doubled. -/
theorem tokens_layout_sample :
    Token.tokens "a<= 'b''s'".toList = .ok [.name "a", .le, .string "b's"] ∧
      (number "-.5").goesOn '-' = false := by
  obtain ⟨hread, _, hnumber⟩ := tokens_layout "a<= 'b''s'".toList
  have hname : SpelledBy (.name "a") ['a'] :=
    .name rfl (List.forall_mem_nil _) (by simp [keywords])
  have hle : SpelledBy .le ['<', '='] := .mark (by simp [marks])
  have hvalid : Layout.Valid ⟨[], [⟨.name "a", ['a'], []⟩, ⟨.le, ['<', '='], [' ']⟩,
      ⟨.string "b's", quoted '\'' "b's", []⟩]⟩ := by
    refine ⟨List.forall_mem_nil _, ⟨hname, List.forall_mem_nil _, ?_⟩, ⟨hle, by simp [isBlank], ?_⟩,
      ⟨.string "b's", List.forall_mem_nil _, ?_⟩, trivial⟩
    · rintro d ⟨⟩
      decide
    · exact fun _ _ => rfl
    · simp [EndsBefore]
  exact ⟨(hread _).mpr ⟨_, hvalid, rfl, by decide⟩, (hnumber _ _ (by decide)).trans (by decide)⟩

end Token

end ItemStore
