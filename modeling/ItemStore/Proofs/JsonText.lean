import ItemStore.Json.Reader
import Mathlib.Data.List.TakeWhile
import Mathlib.Tactic.SplitIfs

/-!
# JSON text is read back

What is written of a JSON value is read as that value and nothing else, however it nests and
whatever stands in its strings.  Writer and reader meet at the lexemes of a value: scanning the text
that is written gives them, and the builder makes the value of them.

* `Json.Legible` — no break in a value, and numbers that are numbers of JSON.
* `Json.lexemes` — the tokens of a value.
* `Scanner.run_string` — the literal of a string is scanned as that string.  Escapes are undone
  one character at a time.
* `Json.scannedAs_intercalate` — texts between commas are scanned one after the other.
* **`Json.Legible.scanned`** — the text of a value is scanned as its lexemes.  A number is not over
  before what follows it is seen, so what follows matters.
* **`Json.Legible.built`** — the lexemes of a value are built into it, inside any containers.
* **`Json.read_render`** — reading gives back what was written.
-/

namespace ItemStore.Json

/-- A value without breaks, whose numbers are numbers of JSON. -/
inductive Legible : Json → Prop
  | null : Legible .null
  | bool (b : Bool) : Legible (.bool b)
  | number {literal : String} (h : isNumber literal.toList = true) : Legible (.number literal)
  | string (text : Option String) : Legible (.string text)
  | array {elements : List Json} (h : ∀ j ∈ elements, Legible j) : Legible (.array elements)
  | object {members : List (Option String × Json)} (h : ∀ m ∈ members, Legible m.2) :
      Legible (.object members)

/-! ## Lexemes -/

mutual

/-- The tokens of a value. -/
def lexemes : Json → List Token
  | .null => [.null]
  | .bool b => [.bool b]
  | .number literal => [.number literal]
  | .string text => [.string text]
  | .array elements => .openBracket :: elementLexemes elements ++ [.closeBracket]
  | .object members => .openBrace :: memberLexemes members ++ [.closeBrace]
  | .broken => []

/-- The tokens of elements, separated by commas. -/
def elementLexemes : List Json → List Token
  | [] => []
  | [j] => lexemes j
  | j :: rest => lexemes j ++ .comma :: elementLexemes rest

/-- The tokens of members, separated by commas. -/
def memberLexemes : List (Option String × Json) → List Token
  | [] => []
  | [(name, j)] => .string name :: .colon :: lexemes j
  | (name, j) :: rest => .string name :: .colon :: lexemes j ++ .comma :: memberLexemes rest

end

/-! ## Code units of a text -/

lemma not_surrogate (c : Char) : ¬ (0xD800 ≤ c.toNat ∧ c.toNat < 0xE000) := by
  have h : c.toNat < 0xD800 ∨ 0xDFFF < c.toNat ∧ c.toNat < 0x110000 := c.valid
  omega

/-- Raw characters are whole units, none of them half of a pair. -/
theorem textOfUnits_map_toNat : ∀ text : List Char, textOfUnits (text.map Char.toNat) = some text
  | [] => rfl
  | [c] => by
      rw [List.map_cons, List.map_nil, textOfUnits, if_neg (not_surrogate c), Char.ofNat_toNat]
  | c :: d :: rest => by
      have hc := not_surrogate c
      have ih := textOfUnits_map_toNat (d :: rest)
      rw [List.map_cons] at ih
      rw [List.map_cons, List.map_cons, textOfUnits, if_neg (by omega), if_neg (by omega), ih,
        Option.map_some, Char.ofNat_toNat]

lemma hexValue?_hexDigit {n : ℕ} (h : n < 16) : hexValue? (hexDigit n) = some n := by
  revert n
  decide

/-! ## Scanning what was written -/

/-- The tokens of a text that is read from here to its end. -/
def Scanner.run (s : Scanner) (text : List Char) : List Token :=
  (text.foldl step s).finish

/-- What follows does not go on with a number. -/
def Delimited (rest : List Char) : Prop :=
  ∀ c ∈ rest.head?, isNumberChar c = false

lemma Delimited.cons {c : Char} (h : isNumberChar c = false) (rest : List Char) :
    Delimited (c :: rest) := by
  intro d hd
  cases hd
  exact h

/-- A text is scanned as some tokens, wherever it stands between two others. -/
def ScannedAs (text : List Char) (found : List Token) : Prop :=
  ∀ ⦃before : List Token⦄ ⦃rest : List Char⦄, Delimited rest →
    Scanner.run ⟨before, .between⟩ (text ++ rest)
      = Scanner.run ⟨found.reverse ++ before, .between⟩ rest

namespace Scanner

variable {before : List Token} {units : List ℕ} {rest : List Char}

lemma run_cons (s : Scanner) (c : Char) : s.run (c :: rest) = (s.step c).run rest := rfl

/-! ### Strings -/

/-- An escape is undone. -/
lemma run_escapeChar (c : Char) :
    run ⟨before, .string units⟩ (escapeChar c ++ rest)
      = run ⟨before, .string (c.toNat :: units)⟩ rest := by
  unfold escapeChar
  split_ifs with hquote hbackslash hb hf hn hr ht hcontrol
  · subst hquote; rfl
  · subst hbackslash; rfl
  · subst hb; rfl
  · subst hf; rfl
  · subst hn; rfl
  · subst hr; rfl
  · subst ht; rfl
  · have hhigh : hexValue? (hexDigit (c.toNat / 16)) = some (c.toNat / 16) :=
      hexValue?_hexDigit (by omega)
    have hlow : hexValue? (hexDigit (c.toNat % 16)) = some (c.toNat % 16) :=
      hexValue?_hexDigit (by omega)
    have hzero : hexValue? '0' = some 0 := by decide
    have hvalue : 16 * (16 * (16 * (16 * 0 + 0) + 0) + c.toNat / 16) + c.toNat % 16 = c.toNat := by
      omega
    simp only [List.cons_append, List.nil_append, run_cons]
    simp [step, hzero, hhigh, hlow, Nat.div_add_mod]
  · have hstep : step ⟨before, .string units⟩ c = ⟨before, .string (c.toNat :: units)⟩ := by
      simp [step, hquote, hbackslash, hcontrol]
    rw [List.singleton_append, run_cons, hstep]

lemma run_escaped (text : List Char) :
    run ⟨before, .string units⟩ (text.flatMap escapeChar ++ rest)
      = run ⟨before, .string ((text.map Char.toNat).reverse ++ units)⟩ rest := by
  induction text generalizing units with
  | nil => rfl
  | cons c text ih =>
      rw [List.flatMap_cons, List.append_assoc, run_escapeChar, ih, List.map_cons,
        List.reverse_cons, List.append_assoc, List.singleton_append]

/-- A string literal is scanned as its string, and one that denotes no text as such a one. -/
lemma run_string (text : Option String) :
    run ⟨before, .between⟩ (renderString text ++ rest)
      = run ⟨.string text :: before, .between⟩ rest := by
  cases text with
  | none => rfl
  | some s =>
      have hopen : step ⟨before, .between⟩ '"' = ⟨before, .string []⟩ := rfl
      have hclose : ∀ units,
          step ⟨before, .string units⟩ '"' = ⟨stringToken units :: before, .between⟩ := fun _ => rfl
      have htoken : stringToken ((s.toList.map Char.toNat).reverse ++ []) = .string (some s) := by
        rw [stringToken, List.append_nil, List.reverse_reverse, textOfUnits_map_toNat,
          Option.map_some, String.ofList_toList]
      rw [renderString, List.append_assoc, List.cons_append, run_cons, hopen, run_escaped,
        List.singleton_append, run_cons, hclose, htoken]

/-! ### Numbers -/

/-- Characters that may all stand in a number. -/
def NumberChars (text : List Char) : Prop :=
  ∀ c ∈ text, isNumberChar c = true

lemma numberChars_of_isDigit {text : List Char} (h : ∀ c ∈ text, c.isDigit = true) :
    NumberChars text := by
  intro c hc
  simp [isNumberChar, h c hc]

lemma numberChars_of_integer? {text : List Char} (h : (Numeral.integer? text).isSome = true) :
    NumberChars text := by
  obtain ⟨sign, hsign, digits, rfl, -, hdigits⟩ := Numeral.digits_of_integer? h
  have hsigns : ∀ sign ∈ Numeral.signs, NumberChars sign := by
    simp [Numeral.signs, NumberChars, isNumberChar]
  exact List.forall_mem_append.mpr ⟨hsigns sign hsign, numberChars_of_isDigit hdigits⟩

lemma numberChars_of_exponent? {text : List Char} (h : (Numeral.exponent? text).isSome = true) :
    NumberChars text := by
  match text, h with
  | [], _ => exact List.forall_mem_nil _
  | mark :: power, h =>
      rw [Numeral.exponent?] at h
      split at h
      · rename_i hmark
        refine List.forall_mem_cons.mpr ⟨?_, numberChars_of_integer? h⟩
        rcases hmark with rfl | rfl <;> rfl
      · cases h

/-- Digits in front of what `splitWhole` leaves. -/
lemma eq_append_of_splitWhole {text rest : List Char} (h : splitWhole text = some rest) :
    ∃ c digits, text = c :: digits ++ rest ∧ ∀ d ∈ c :: digits, d.isDigit = true := by
  unfold splitWhole at h
  split at h
  · cases h
    exact ⟨'0', [], rfl, List.forall_mem_singleton.mpr rfl⟩
  · split_ifs at h with hempty
    cases h
    obtain ⟨c, digits, hcons⟩ := List.exists_cons_of_ne_nil
      (fun hnil => hempty (List.isEmpty_iff.mpr hnil) : text.takeWhile Char.isDigit ≠ [])
    refine ⟨c, digits, ?_, fun d hd => ?_⟩
    · rw [← hcons, List.takeWhile_append_dropWhile]
    · rw [← hcons] at hd
      exact List.mem_takeWhile_imp hd

/-- A point and digits, or nothing, in front of what `splitPlaces` leaves. -/
lemma eq_append_of_splitPlaces {text rest : List Char} (h : splitPlaces text = some rest) :
    ∃ places, text = places ++ rest ∧ NumberChars places := by
  unfold splitPlaces at h
  split at h
  · rename_i text
    split_ifs at h
    cases h
    refine ⟨'.' :: text.takeWhile Char.isDigit, ?_, List.forall_mem_cons.mpr ⟨rfl, ?_⟩⟩
    · rw [List.cons_append, List.takeWhile_append_dropWhile]
    · exact numberChars_of_isDigit fun _ hd => List.mem_takeWhile_imp hd
  · cases h
    exact ⟨[], rfl, List.forall_mem_nil _⟩

/-- A number of JSON without its sign begins with a digit, and goes on with characters of
numbers. -/
lemma cons_of_splitPlaces {body tail : List Char}
    (h : (splitWhole body).bind splitPlaces = some tail)
    (htail : (Numeral.exponent? tail).isSome = true) :
    ∃ c more, body = c :: more ∧ c.isDigit = true ∧ NumberChars more := by
  obtain ⟨rest, hwhole, hplaces⟩ := Option.bind_eq_some_iff.mp h
  obtain ⟨c, digits, rfl, hdigits⟩ := eq_append_of_splitWhole hwhole
  obtain ⟨places, rfl, hchars⟩ := eq_append_of_splitPlaces hplaces
  rw [List.forall_mem_cons] at hdigits
  refine ⟨c, digits ++ (places ++ tail), rfl, hdigits.1, ?_⟩
  rw [NumberChars, List.forall_mem_append, List.forall_mem_append]
  exact ⟨numberChars_of_isDigit hdigits.2, hchars, numberChars_of_exponent? htail⟩

/-- A number of JSON begins with a digit or a minus sign, and goes on with characters of numbers. -/
lemma cons_of_isNumber {text : List Char} (h : isNumber text = true) :
    ∃ c more, text = c :: more ∧ (c.isDigit || c == '-') = true ∧ NumberChars more := by
  unfold isNumber at h
  dsimp only at h
  split at h
  · rename_i tail hsplit
    split at hsplit
    · obtain ⟨c, more, rfl, hdigit, hmore⟩ := cons_of_splitPlaces hsplit h
      refine ⟨'-', c :: more, rfl, rfl, List.forall_mem_cons.mpr ⟨?_, hmore⟩⟩
      simp [isNumberChar, hdigit]
    · obtain ⟨c, more, rfl, hdigit, hmore⟩ := cons_of_splitPlaces hsplit h
      exact ⟨c, more, rfl, by simp [hdigit], hmore⟩
  · cases h

lemma run_numberChars {reversed : List Char} {more : List Char} (h : NumberChars more) :
    run ⟨before, .number reversed⟩ (more ++ rest)
      = run ⟨before, .number (more.reverse ++ reversed)⟩ rest := by
  induction more generalizing reversed with
  | nil => rfl
  | cons c more ih =>
      rw [NumberChars, List.forall_mem_cons] at h
      have hstep : step ⟨before, .number reversed⟩ c = ⟨before, .number (c :: reversed)⟩ := by
        simp [step, h.1]
      rw [List.cons_append, run_cons, hstep, ih h.2, List.reverse_cons, List.append_assoc,
        List.singleton_append]

/-- A number ends where the text ends or something stands that is no part of a number. -/
lemma run_number_delimited {reversed : List Char} (h : isNumber reversed.reverse = true)
    (hrest : Delimited rest) :
    run ⟨before, .number reversed⟩ rest
      = run ⟨.number (String.ofList reversed.reverse) :: before, .between⟩ rest := by
  have htoken : numberToken reversed = .number (String.ofList reversed.reverse) := if_pos h
  cases rest with
  | nil => simp [run, finish, htoken]
  | cons c rest =>
      have hc : isNumberChar c = false := hrest c rfl
      rw [run_cons, run_cons]
      simp [step, hc, htoken]

/-- The literal of a number is scanned as that number. -/
lemma run_number {literal : String} (h : isNumber literal.toList = true) (hrest : Delimited rest) :
    run ⟨before, .between⟩ (literal.toList ++ rest)
      = run ⟨.number literal :: before, .between⟩ rest := by
  obtain ⟨c, more, htext, hfirst, hmore⟩ := cons_of_isNumber h
  have hblank : isBlank c = false := by
    rcases Bool.or_eq_true_iff.mp hfirst with hdigit | hminus
    · by_contra hblank
      rw [Bool.not_eq_false] at hblank
      simp only [isBlank, Bool.or_eq_true, beq_iff_eq] at hblank
      rcases hblank with ((rfl | rfl) | rfl) | rfl <;> cases hdigit
    · rw [beq_iff_eq.mp hminus]
      rfl
  have hstep : step ⟨before, .between⟩ c = ⟨before, .number [c]⟩ := by
    simp [step, start, hblank, hfirst]
  have hreverse : (more.reverse ++ [c]).reverse = literal.toList := by
    rw [htext, List.reverse_append, List.reverse_reverse, List.reverse_singleton,
      List.singleton_append]
  rw [htext, List.cons_append, run_cons, hstep, run_numberChars hmore,
    run_number_delimited (by rwa [hreverse]) hrest, hreverse, String.ofList_toList]

end Scanner

/-! ### Values -/

section

open Scanner

variable {before : List Token} {rest : List Char}

lemma run_comma :
    run ⟨before, .between⟩ (',' :: rest) = run ⟨.comma :: before, .between⟩ rest := rfl

lemma run_colon :
    run ⟨before, .between⟩ (':' :: rest) = run ⟨.colon :: before, .between⟩ rest := rfl

/-- Texts between commas are scanned one after the other. -/
lemma scannedAs_intercalate {α : Type} {text : α → List Char} {found : α → List Token} :
    ∀ {parts : List α}, (∀ p ∈ parts, ScannedAs (text p) (found p)) →
      ScannedAs ([','].intercalate (parts.map text)) ([Token.comma].intercalate (parts.map found))
  | [], _ => fun _ _ _ => rfl
  | [p], h => by
      rw [List.map_singleton, List.map_singleton, List.intercalate_singleton,
        List.intercalate_singleton]
      exact h p (List.mem_singleton_self p)
  | p :: q :: parts, h => by
      intro before rest hrest
      have hfirst := h p List.mem_cons_self
      have hmore := scannedAs_intercalate fun p' hp => h p' (List.mem_cons_of_mem p hp)
      simp only [List.map_cons, List.intercalate_cons_cons, List.append_assoc, List.cons_append,
        List.nil_append] at hmore ⊢
      rw [hfirst (.cons rfl _), run_comma, hmore hrest]
      simp

/-- A member is scanned as its name and its value. -/
lemma scannedAs_member {nameText valueText : List Char} {name : Option String}
    {found : List Token} (hname : ScannedAs nameText [.string name])
    (hvalue : ScannedAs valueText found) :
    ScannedAs (nameText ++ ':' :: valueText) (.string name :: .colon :: found) := by
  intro before rest hrest
  rw [List.append_assoc, List.cons_append, hname (.cons rfl _), run_colon, hvalue hrest]
  simp

lemma ScannedAs.brackets {text : List Char} {found : List Token} (h : ScannedAs text found) :
    ScannedAs ('[' :: text ++ [']']) (.openBracket :: found ++ [.closeBracket]) := by
  intro before rest hrest
  have hopen : step ⟨before, .between⟩ '[' = ⟨.openBracket :: before, .between⟩ := rfl
  have hclose : ∀ found, step ⟨found, .between⟩ ']' = ⟨.closeBracket :: found, .between⟩ :=
    fun _ => rfl
  rw [List.append_assoc, List.cons_append, List.singleton_append, run_cons, hopen,
    h (.cons rfl _), run_cons, hclose]
  simp

lemma ScannedAs.braces {text : List Char} {found : List Token} (h : ScannedAs text found) :
    ScannedAs ('\x7b' :: text ++ ['\x7d']) (.openBrace :: found ++ [.closeBrace]) := by
  intro before rest hrest
  have hopen : step ⟨before, .between⟩ '\x7b' = ⟨.openBrace :: before, .between⟩ := rfl
  have hclose : ∀ found, step ⟨found, .between⟩ '\x7d' = ⟨.closeBrace :: found, .between⟩ :=
    fun _ => rfl
  rw [List.append_assoc, List.cons_append, List.singleton_append, run_cons, hopen,
    h (.cons rfl _), run_cons, hclose]
  simp

lemma elementLexemes_eq : ∀ elements : List Json,
    elementLexemes elements = [Token.comma].intercalate (elements.map lexemes)
  | [] => rfl
  | [j] => (List.append_nil _).symm
  | j :: k :: more => by
      have hmore := elementLexemes_eq (k :: more)
      simp only [elementLexemes, hmore, List.map_cons, List.intercalate_cons_cons]
      simp

lemma memberLexemes_eq : ∀ members : List (Option String × Json),
    memberLexemes members
      = [Token.comma].intercalate (members.map fun m => .string m.1 :: .colon :: lexemes m.2)
  | [] => rfl
  | [(name, j)] => (List.append_nil _).symm
  | (name, j) :: m :: more => by
      have hmore := memberLexemes_eq (m :: more)
      simp only [memberLexemes, hmore, List.map_cons, List.intercalate_cons_cons]
      simp

lemma elementChars_eq : ∀ elements : List Json,
    elementChars elements = [','].intercalate (elements.map chars)
  | [] => rfl
  | [j] => (List.append_nil _).symm
  | j :: k :: more => by
      have hmore := elementChars_eq (k :: more)
      simp only [elementChars, hmore, List.map_cons, List.intercalate_cons_cons]
      simp

lemma memberChars_eq : ∀ members : List (Option String × Json),
    memberChars members
      = [','].intercalate (members.map fun m => renderString m.1 ++ ':' :: chars m.2)
  | [] => rfl
  | [(name, j)] => (List.append_nil _).symm
  | (name, j) :: m :: more => by
      have hmore := memberChars_eq (m :: more)
      simp only [memberChars, hmore, List.map_cons, List.intercalate_cons_cons]
      simp

/-- **The text of a value is scanned as its lexemes**, whatever was scanned before it and as long
as what follows does not go on with a number. -/
theorem Legible.scanned {j : Json} (h : Legible j) : ScannedAs (chars j) (lexemes j) := by
  induction h with
  | null => exact fun _ _ _ => rfl
  | bool b => cases b <;> exact fun _ _ _ => rfl
  | number hnumber => exact fun _ _ hrest => run_number hnumber hrest
  | string text => exact fun _ _ _ => run_string text
  | array _ ih =>
      rw [chars, lexemes, elementChars_eq, elementLexemes_eq]
      exact (scannedAs_intercalate ih).brackets
  | object _ ih =>
      rw [chars, lexemes, memberChars_eq, memberLexemes_eq]
      exact (scannedAs_intercalate fun m hm =>
        scannedAs_member (fun _ _ _ => run_string m.1) (ih m hm)).braces

/-- A text that is scanned as some tokens anywhere has these when it stands alone. -/
lemma ScannedAs.tokens_eq {text : List Char} {found : List Token} (h : ScannedAs text found) :
    tokens text = found := by
  have hrun : run ⟨[], .between⟩ (text ++ []) = run ⟨found.reverse ++ [], .between⟩ [] :=
    h fun _ hc => by cases hc
  rw [List.append_nil, List.append_nil] at hrun
  exact hrun.trans (List.reverse_reverse _)

end

/-! ## Building what was scanned -/

/-- A value is built of some tokens, inside any containers. -/
def BuiltFrom (j : Json) (found : List Token) : Prop :=
  ∀ frames, found.foldl Builder.step (.inside .value frames) = Builder.emit j frames

section

open Builder

variable {frames : List Frame}

lemma BuiltFrom.foldl_append {j : Json} {found : List Token} (h : BuiltFrom j found)
    (frames : List Frame) (more : List Token) :
    (found ++ more).foldl step (.inside .value frames) = more.foldl step (emit j frames) := by
  rw [List.foldl_append, h]

/-- The first element of an array is built as every other is: no value begins with a bracket that
closes. -/
lemma foldl_lexemes_firstElement {j : Json} (h : Legible j) (more : List Token) :
    (lexemes j ++ more).foldl step (.inside .firstElement frames)
      = (lexemes j ++ more).foldl step (.inside .value frames) := by
  cases h <;> simp [lexemes, step]

/-- The elements of an array, one at least, and the bracket that closes it. -/
lemma foldl_elementLexemes : ∀ {j : Json} {more before : List Json},
    (∀ i ∈ j :: more, BuiltFrom i (lexemes i)) →
      (elementLexemes (j :: more) ++ [Token.closeBracket]).foldl step
          (.inside .value (.array before :: frames))
        = emit (.array (before.reverse ++ j :: more)) frames
  | j, [], before, h => by
      rw [elementLexemes, (h j List.mem_cons_self).foldl_append, ← List.reverse_cons]
      rfl
  | j, k :: more, before, h => by
      have hmore := @foldl_elementLexemes k more (j :: before)
        fun i hi => h i (List.mem_cons_of_mem j hi)
      rw [List.reverse_cons, List.append_assoc, List.singleton_append] at hmore
      rw [← hmore]
      simp only [elementLexemes, List.append_assoc, List.cons_append]
      exact (h j List.mem_cons_self).foldl_append _ _

/-- The members of an object, one at least, and the brace that closes it. -/
lemma foldl_memberLexemes :
    ∀ {m : Option String × Json} {more before : List (Option String × Json)},
    (∀ i ∈ m :: more, BuiltFrom i.2 (lexemes i.2)) →
      (memberLexemes (m :: more) ++ [Token.closeBrace]).foldl step
          (.inside .name (.object before :: frames))
        = emit (.object (before.reverse ++ m :: more)) frames
  | (n, j), [], before, h => by
      rw [memberLexemes, ← List.reverse_cons]
      exact (h (n, j) List.mem_cons_self).foldl_append (.member before n :: frames) _
  | (n, j), m :: more, before, h => by
      have hmore := @foldl_memberLexemes m more ((n, j) :: before)
        fun i hi => h i (List.mem_cons_of_mem (n, j) hi)
      rw [List.reverse_cons, List.append_assoc, List.singleton_append] at hmore
      rw [← hmore]
      simp only [memberLexemes, List.append_assoc, List.cons_append]
      exact (h (n, j) List.mem_cons_self).foldl_append (.member before n :: frames) _

/-- The first member of an object is built as every other is. -/
lemma foldl_memberLexemes_firstName {m : Option String × Json}
    {members more : List (Option String × Json)} (found : List Token) :
    (memberLexemes (m :: members) ++ found).foldl step (.inside .firstName (.object more :: frames))
      = (memberLexemes (m :: members) ++ found).foldl step
          (.inside .name (.object more :: frames)) := by
  cases members <;> rfl

/-- **The lexemes of a value are built into it.** -/
theorem Legible.built {j : Json} (h : Legible j) : BuiltFrom j (lexemes j) := by
  induction h with
  | null => exact fun _ => rfl
  | bool b => exact fun _ => rfl
  | number _ => exact fun _ => rfl
  | string text => exact fun _ => rfl
  | @array elements hlegible ih =>
      intro frames
      rw [lexemes]
      cases elements with
      | nil => rfl
      | cons j more =>
          calc ((.openBracket :: elementLexemes (j :: more)) ++ [Token.closeBracket]).foldl step
                (.inside .value frames)
              = (elementLexemes (j :: more) ++ [Token.closeBracket]).foldl step
                  (.inside .firstElement (.array [] :: frames)) := rfl
            _ = (elementLexemes (j :: more) ++ [Token.closeBracket]).foldl step
                  (.inside .value (.array [] :: frames)) := by
              have hj := hlegible j List.mem_cons_self
              cases more with
              | nil => exact foldl_lexemes_firstElement hj _
              | cons k more =>
                  simp only [elementLexemes, List.append_assoc]
                  exact foldl_lexemes_firstElement hj _
            _ = emit (.array (j :: more)) frames := foldl_elementLexemes ih
  | @object members _ ih =>
      intro frames
      rw [lexemes]
      cases members with
      | nil => rfl
      | cons m more => exact (foldl_memberLexemes_firstName _).trans (foldl_memberLexemes ih)

end

/-! ## Reading what was written -/

/-- A text that is scanned as the lexemes of a value is read as that value. -/
lemma Legible.read_eq {j : Json} (h : Legible j) {text : String}
    (htext : ScannedAs text.toList (lexemes j)) : read text = (j, true) := by
  have hbuilt : (lexemes j).foldl Builder.step (.inside .value []) = .ended j true := h.built []
  rw [read, htext.tokens_eq, ofTokens, hbuilt]
  rfl

/-- **Reading gives back what was written**, one whole value and nothing more. -/
theorem read_render {j : Json} (h : Legible j) : read j.render = (j, true) := by
  refine h.read_eq ?_
  rw [render, String.toList_ofList]
  exact h.scanned

/-- A text with every kind of escape, between brackets and braces. -/
example : read (render (.array [.object [(some "\n\x01\"", .number "-0.5e+1")], .text "\\é😀"]))
    = (.array [.object [(some "\n\x01\"", .number "-0.5e+1")], .text "\\é😀"], true) :=
  read_render (.array (List.forall_mem_cons.mpr ⟨.object (List.forall_mem_singleton.mpr
    (.number (by decide))), List.forall_mem_singleton.mpr (.string _)⟩))

end ItemStore.Json
