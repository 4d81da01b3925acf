import ItemStore.Proofs.JsonText
import ItemStore.Proofs.NumeralGrammar

/-!
# The grammar of JSON

The texts of JSON, by a grammar that knows of no reader: blanks around every value and every name,
numbers by a regular expression, and strings in which a character stands for itself or is escaped in
one of three ways.  A value has many texts.  The reader makes that value of each of them.

* `Pattern.jsonNumber` — the texts of numbers, as a pattern.
* `Json.StringText` — what may stand between quotes, and the text that it denotes.
* **`Json.Spelling`** — the texts of a value.  All of its strings and names denote texts.
* **`Json.Spelling.scanned`** — such a text is scanned as the lexemes of the value.
* **`Json.read_of_spelling`** — such a text is read as the value, and as nothing more.
-/

namespace ItemStore

/-! ## Texts of JSON -/

namespace Pattern

/-- Digits without a zero in front. -/
def jsonWhole : Pattern :=
  RegularExpression.char '0' + oneOf ['1', '2', '3', '4', '5', '6', '7', '8', '9'] * digit.star

/-- A point and digits, or nothing. -/
def jsonPlaces : Pattern := optional (.char '.' * oneOrMore digit)

def jsonNumber : Pattern := optional (.char '-') * jsonWhole * jsonPlaces * exponent

end Pattern

namespace Json

open Pattern

/-- The letters of short escapes, and the characters that they stand for. -/
def shortEscapes : List (Char × Char) :=
  [ ('"', '"'), ('\\', '\\'), ('/', '/'), ('b', '\x08'), ('f', '\x0c'), ('n', '\n'), ('r', '\r'),
    ('t', '\t')]

/-- A hexadecimal digit of either case, and its value. -/
def HexDigit (c : Char) (n : ℕ) : Prop :=
  "0123456789abcdef".toList[n]? = some c ∨ "0123456789ABCDEF".toList[n]? = some c

/-- Four hexadecimal digits, and the code unit that they stand for. -/
inductive CodeUnit : List Char → ℕ → Prop
  | mk {a b c d : Char} {h i j k : ℕ} (ha : HexDigit a h) (hb : HexDigit b i) (hc : HexDigit c j)
      (hd : HexDigit d k) : CodeUnit [a, b, c, d] (((h * 16 + i) * 16 + j) * 16 + k)

/-- A text, and what is written between quotes for it.  A character beyond the first 65536 is
escaped as two halves. -/
inductive StringText : List Char → List Char → Prop
  | nil : StringText [] []
  | raw {c : Char} {text written : List Char} (hquote : c ≠ '"') (hbackslash : c ≠ '\\')
      (hcontrol : 32 ≤ c.toNat) (h : StringText text written) :
      StringText (c :: text) (c :: written)
  | short {letter c : Char} {text written : List Char} (hescape : (letter, c) ∈ shortEscapes)
      (h : StringText text written) : StringText (c :: text) ('\\' :: letter :: written)
  | unit {c : Char} {code text written : List Char} (hcode : CodeUnit code c.toNat)
      (h : StringText text written) : StringText (c :: text) ('\\' :: 'u' :: (code ++ written))
  | pair {c : Char} {high low : ℕ} {code code' text written : List Char}
      (hcode : CodeUnit code (0xD800 + high)) (hcode' : CodeUnit code' (0xDC00 + low))
      (hhigh : high < 0x400) (hlow : low < 0x400) (hc : c.toNat = 0x10000 + high * 0x400 + low)
      (h : StringText text written) :
      StringText (c :: text) ('\\' :: 'u' :: (code ++ '\\' :: 'u' :: (code' ++ written)))

/-- Nothing but blanks. -/
def Blank (text : List Char) : Prop := ∀ c ∈ text, c ∈ [' ', '\t', '\n', '\r']

/-- A name of a member, with blanks around it. -/
inductive NameText : String → List Char → Prop
  | mk {name : String} {before written after : List Char} (hbefore : Blank before)
      (h : StringText name.toList written) (hafter : Blank after) :
      NameText name (before ++ '"' :: (written ++ '"' :: after))

/-- A member and its two texts. -/
structure MemberText where
  name : String
  nameText : List Char
  value : Json
  valueText : List Char

/-- The texts of a value. -/
inductive Spelling : Json → List Char → Prop
  | null : Spelling .null ['n', 'u', 'l', 'l']
  | isTrue : Spelling (.bool true) ['t', 'r', 'u', 'e']
  | isFalse : Spelling (.bool false) ['f', 'a', 'l', 's', 'e']
  | number {literal : String} (h : literal.toList ∈ jsonNumber.matches') :
      Spelling (.number literal) literal.toList
  | string {s : String} {written : List Char} (h : StringText s.toList written) :
      Spelling (.text s) ('"' :: (written ++ ['"']))
  | array {blanks : List Char} {parts : List (Json × List Char)} (hblanks : Blank blanks)
      (h : ∀ p ∈ parts, Spelling p.1 p.2) :
      Spelling (.array (parts.map Prod.fst))
        ('[' :: (blanks ++ ([','].intercalate (parts.map Prod.snd) ++ [']'])))
  | object {blanks : List Char} {members : List MemberText} (hblanks : Blank blanks)
      (hnames : ∀ m ∈ members, NameText m.name m.nameText)
      (h : ∀ m ∈ members, Spelling m.value m.valueText) :
      Spelling (.object (members.map fun m => (some m.name, m.value)))
        ('\x7b' :: (blanks ++
          ([','].intercalate (members.map fun m => m.nameText ++ ':' :: m.valueText) ++ ['\x7d'])))
  | padded {j : Json} {before text after : List Char} (hbefore : Blank before)
      (h : Spelling j text) (hafter : Blank after) : Spelling j (before ++ (text ++ after))

/-- A text without quotes, backslashes and control characters is written as it is. -/
lemma stringText_self : ∀ {text : List Char},
    (∀ c ∈ text, c ≠ '"' ∧ c ≠ '\\' ∧ 32 ≤ c.toNat) → StringText text text
  | [], _ => .nil
  | c :: text, h => by
      obtain ⟨⟨hquote, hbackslash, hcontrol⟩, htext⟩ := List.forall_mem_cons.mp h
      exact .raw hquote hbackslash hcontrol (stringText_self htext)

lemma nameText_quoted {name : String} {written : List Char} (h : StringText name.toList written) :
    NameText name ('"' :: (written ++ ['"'])) :=
  .mk (List.forall_mem_nil _) h (List.forall_mem_nil _)

/-- A text of an object with one member. -/
lemma Spelling.record {name : String} {nameText text : List Char} {j : Json}
    (hname : NameText name nameText) (h : Spelling j text) :
    Spelling (.record [(name, j)]) ('\x7b' :: (nameText ++ ':' :: (text ++ ['\x7d']))) := by
  have hobject := @Spelling.object [] [⟨name, nameText, j, text⟩] (List.forall_mem_nil _)
    (List.forall_mem_singleton.mpr hname) (List.forall_mem_singleton.mpr h)
  simpa [Json.record] using hobject

/-! ## Numbers -/

section

variable {text rest : List Char}

lemma isDigit_of_mem_nonzero {c : Char}
    (h : c ∈ ['1', '2', '3', '4', '5', '6', '7', '8', '9']) : c.isDigit = true ∧ c ≠ '0' := by
  simp only [List.mem_cons, List.not_mem_nil, or_false] at h
  rcases h with rfl | rfl | rfl | rfl | rfl | rfl | rfl | rfl | rfl <;> decide

lemma splitWhole_append (h : text ∈ jsonWhole.matches')
    (hrest : ∀ c ∈ rest.head?, c = '.' ∨ c = 'e' ∨ c = 'E') :
    splitWhole (text ++ rest) = some rest := by
  rw [jsonWhole, mem_add, mem_char, mem_mul] at h
  rcases h with rfl | ⟨_, hfirst, digits, hdigits, rfl⟩
  · rfl
  · obtain ⟨d, hd, rfl⟩ := mem_oneOf.mp hfirst
    obtain ⟨hdigit, hzero⟩ := isDigit_of_mem_nonzero hd
    have hall : ∀ c ∈ d :: digits, c.isDigit = true :=
      List.forall_mem_cons.mpr ⟨hdigit, mem_star_digit.mp hdigits⟩
    obtain ⟨htake, hdrop⟩ := Numeral.splitDigits hall hrest
    show splitWhole (d :: digits ++ rest) = _
    unfold splitWhole
    split
    · rename_i heq
      exact absurd (List.cons.inj heq).1 hzero
    · rw [htake, hdrop]
      rfl

lemma splitPlaces_append (h : text ∈ jsonPlaces.matches')
    (hrest : ∀ c ∈ rest.head?, c = 'e' ∨ c = 'E') : splitPlaces (text ++ rest) = some rest := by
  rw [jsonPlaces, mem_optional, mem_mul] at h
  rcases h with rfl | ⟨_, hpoint, digits, hdigits, rfl⟩
  · rw [List.nil_append]
    unfold splitPlaces
    split
    · rcases hrest '.' rfl with h | h <;> cases h
    · rfl
  · obtain rfl := mem_char.mp hpoint
    obtain ⟨hne, hdigits⟩ := mem_digits.mp hdigits
    obtain ⟨htake, hdrop⟩ := Numeral.splitDigits hdigits fun c hc => .inr (hrest c hc)
    show splitPlaces ('.' :: (digits ++ rest)) = _
    rw [splitPlaces, htake, hdrop, if_neg (by simpa using hne)]

/-- The first character behind the digits of a whole number, if there is one. -/
lemma head_of_places {power : List Char} (h : text ∈ jsonPlaces.matches')
    (hpower : ∀ c ∈ power.head?, c = 'e' ∨ c = 'E') :
    ∀ c ∈ (text ++ power).head?, c = '.' ∨ c = 'e' ∨ c = 'E' := by
  rw [jsonPlaces, mem_optional, mem_mul] at h
  rcases h with rfl | ⟨_, hpoint, digits, -, rfl⟩
  · exact fun c hc => .inr (hpower c hc)
  · obtain rfl := mem_char.mp hpoint
    exact fun c hc => .inl (Option.some.inj hc).symm

lemma isNumber_of_split {body power : List Char}
    (hbody : (splitWhole body).bind splitPlaces = some power)
    (hpower : (Numeral.exponent? power).isSome = true) :
    isNumber body = true ∧ isNumber ('-' :: body) = true := by
  have hminus : isNumber ('-' :: body) = true := by
    simp only [isNumber, hbody]
    exact hpower
  refine ⟨?_, hminus⟩
  unfold isNumber
  dsimp only
  split
  · rename_i tail htail
    split at htail
    · simp [splitWhole] at hbody
    · rwa [← Option.some.inj (hbody.symm.trans htail)]
  · rename_i hnone
    split at hnone
    · simp [splitWhole] at hbody
    · rw [hbody] at hnone
      cases hnone

/-- **A text of the pattern is a number.** -/
theorem isNumber_of_mem (h : text ∈ jsonNumber.matches') : isNumber text = true := by
  obtain ⟨_, hfront, power, hpower, rfl⟩ := mem_mul.mp h
  obtain ⟨_, hlead, fraction, hfraction, rfl⟩ := mem_mul.mp hfront
  obtain ⟨sign, hsign, digits, hdigits, rfl⟩ := mem_mul.mp hlead
  have hmark := head_of_exponent hpower
  have hbody : (splitWhole (digits ++ (fraction ++ power))).bind splitPlaces = some power := by
    rw [splitWhole_append hdigits (head_of_places hfraction hmark)]
    exact splitPlaces_append hfraction hmark
  have hnumber := isNumber_of_split hbody (Numeral.isSome_exponent?_iff.mpr hpower)
  rw [List.append_assoc, List.append_assoc]
  rw [Pattern.mem_optional, mem_char] at hsign
  rcases hsign with rfl | rfl
  · exact hnumber.1
  · exact hnumber.2

end

/-! ## Strings -/

lemma HexDigit.hexValue? {c : Char} {n : ℕ} (h : HexDigit c n) : hexValue? c = some n := by
  have hn : n < 16 := by
    rcases h with h | h <;> exact (List.getElem?_eq_some_iff.mp h).1
  rcases h with h | h <;> interval_cases n <;> obtain rfl := Option.some.inj h <;> decide

lemma shortEscape?_of_mem {letter c : Char} (h : (letter, c) ∈ shortEscapes) :
    letter ≠ 'u' ∧ shortEscape? letter = some c := by
  simp only [shortEscapes, List.mem_cons, Prod.mk.injEq, List.not_mem_nil, or_false] at h
  rcases h with ⟨rfl, rfl⟩ | ⟨rfl, rfl⟩ | ⟨rfl, rfl⟩ | ⟨rfl, rfl⟩ | ⟨rfl, rfl⟩ | ⟨rfl, rfl⟩ |
    ⟨rfl, rfl⟩ | ⟨rfl, rfl⟩ <;> decide

/-- A unit that is a character stands for it, whatever follows. -/
lemma textOfUnits_toNat_cons (c : Char) (units : List ℕ) :
    textOfUnits (c.toNat :: units) = (textOfUnits units).map (c :: ·) := by
  have hc := not_surrogate c
  cases units with
  | nil =>
      show (if _ ∧ _ then none else some [Char.ofNat c.toNat]) = some [c]
      rw [if_neg hc, Char.ofNat_toNat]
  | cons u units => rw [textOfUnits, if_neg (by omega), if_neg (by omega), Char.ofNat_toNat]

/-- Two halves of a character stand for it. -/
lemma textOfUnits_pair {c : Char} {high low : ℕ} (hhigh : high < 0x400) (hlow : low < 0x400)
    (hc : c.toNat = 0x10000 + high * 0x400 + low) (units : List ℕ) :
    textOfUnits ((0xD800 + high) :: (0xDC00 + low) :: units)
      = (textOfUnits units).map (c :: ·) := by
  rw [textOfUnits, if_pos (by omega), if_pos (by omega), Nat.add_sub_cancel_left,
    Nat.add_sub_cancel_left, ← hc, Char.ofNat_toNat]

namespace Scanner

variable {before : List Token} {units : List ℕ} {rest : List Char}

lemma run_codeUnit {code : List Char} {n : ℕ} (h : CodeUnit code n) :
    run ⟨before, .string units⟩ ('\\' :: 'u' :: (code ++ rest))
      = run ⟨before, .string (n :: units)⟩ rest := by
  obtain ⟨ha, hb, hc, hd⟩ := h
  simp only [List.cons_append, List.nil_append, run_cons]
  simp [step, ha.hexValue?, hb.hexValue?, hc.hexValue?, hd.hexValue?, mul_comm]

/-- What is written between quotes is scanned as units that stand for a text. -/
def ScannedText (written text : List Char) : Prop :=
  ∃ read, textOfUnits read = some text ∧ ∀ ⦃before units rest⦄,
    run ⟨before, .string units⟩ (written ++ rest)
      = run ⟨before, .string (read.reverse ++ units)⟩ rest

/-- A character is put in front, in whatever way it is written. -/
lemma ScannedText.cons {c : Char} {text first written : List Char} {read : List ℕ}
    (h : ScannedText written text)
    (hdenotes : ∀ more, textOfUnits (read ++ more) = (textOfUnits more).map (c :: ·))
    (hfirst : ∀ ⦃before units rest⦄, run ⟨before, .string units⟩ (first ++ rest)
      = run ⟨before, .string (read.reverse ++ units)⟩ rest) :
    ScannedText (first ++ written) (c :: text) := by
  obtain ⟨more, hmore, hrun⟩ := h
  refine ⟨read ++ more, by rw [hdenotes, hmore, Option.map_some], fun before units rest => ?_⟩
  rw [List.append_assoc, hfirst, hrun, List.reverse_append, List.append_assoc]

/-- What is written for a text stands for the text. -/
lemma scannedText_of_stringText {text written : List Char} (h : StringText text written) :
    ScannedText written text := by
  induction h with
  | nil => exact ⟨[], rfl, fun _ _ _ => rfl⟩
  | @raw c text written hquote hbackslash hcontrol _ ih =>
      refine @ScannedText.cons c text [c] written [c.toNat] ih (textOfUnits_toNat_cons c) ?_
      intro before units rest
      have hstep : step ⟨before, .string units⟩ c = ⟨before, .string (c.toNat :: units)⟩ := by
        simp [step, hquote, hbackslash, hcontrol]
      rw [List.singleton_append, run_cons, hstep]
      rfl
  | @short letter c text written hescape _ ih =>
      refine @ScannedText.cons c text ['\\', letter] written [c.toNat] ih
        (textOfUnits_toNat_cons c) ?_
      intro before units rest
      obtain ⟨hletter, hshort⟩ := shortEscape?_of_mem hescape
      have hopen : step ⟨before, .string units⟩ '\\' = ⟨before, .escape units⟩ := rfl
      have hstep : step ⟨before, .escape units⟩ letter = ⟨before, .string (c.toNat :: units)⟩ := by
        simp [step, hletter, hshort]
      rw [List.cons_append, List.singleton_append, run_cons, hopen, run_cons, hstep]
      rfl
  | @unit c code text written hcode _ ih =>
      refine @ScannedText.cons c text ('\\' :: 'u' :: code) written [c.toNat] ih
        (textOfUnits_toNat_cons c) ?_
      exact fun _ _ _ => run_codeUnit hcode
  | @pair c high low code code' text written hcode hcode' hhigh hlow hc _ ih =>
      have h := @ScannedText.cons c text ('\\' :: 'u' :: (code ++ '\\' :: 'u' :: code')) written
        [0xD800 + high, 0xDC00 + low] ih (textOfUnits_pair hhigh hlow hc)
        fun before units rest => by
          simp only [List.cons_append, List.append_assoc]
          rw [run_codeUnit hcode, run_codeUnit hcode']
          rfl
      simpa using h

/-- A literal is scanned as the text that it denotes. -/
lemma run_quoted {s : String} {written : List Char} (h : StringText s.toList written) :
    run ⟨before, .between⟩ ('"' :: (written ++ '"' :: rest))
      = run ⟨.string (some s) :: before, .between⟩ rest := by
  obtain ⟨read, hread, hrun⟩ := scannedText_of_stringText h
  have hopen : step ⟨before, .between⟩ '"' = ⟨before, .string []⟩ := rfl
  have hclose : step ⟨before, .string (read.reverse ++ [])⟩ '"'
      = ⟨stringToken (read.reverse ++ []) :: before, .between⟩ := rfl
  have htoken : stringToken (read.reverse ++ []) = .string (some s) := by
    rw [stringToken, List.append_nil, List.reverse_reverse, hread, Option.map_some,
      String.ofList_toList]
  rw [run_cons, hopen, hrun, run_cons, hclose, htoken]

/-! ## Values -/

lemma run_blanks {blanks : List Char} (h : Blank blanks) :
    run ⟨before, .between⟩ (blanks ++ rest) = run ⟨before, .between⟩ rest := by
  induction blanks with
  | nil => rfl
  | cons b blanks ih =>
      obtain ⟨hb, hblanks⟩ := List.forall_mem_cons.mp h
      have hstep : step ⟨before, .between⟩ b = ⟨before, .between⟩ := by
        simp only [List.mem_cons, List.not_mem_nil, or_false] at hb
        rcases hb with rfl | rfl | rfl | rfl <;> rfl
      rw [List.cons_append, run_cons, hstep, ih hblanks]

end Scanner

/-- Blanks do not go on with a number, nor does what may stand behind them. -/
lemma Delimited.blanks {blanks rest : List Char} (h : Blank blanks) (hrest : Delimited rest) :
    Delimited (blanks ++ rest) := by
  cases blanks with
  | nil => exact hrest
  | cons b blanks =>
      refine .cons ?_ _
      have hb := h b List.mem_cons_self
      simp only [List.mem_cons, List.not_mem_nil, or_false] at hb
      rcases hb with rfl | rfl | rfl | rfl <;> decide

open Scanner

section

variable {text blanks : List Char} {found : List Token} (h : ScannedAs text found)
  (hblanks : Blank blanks)

include h hblanks

lemma ScannedAs.after : ScannedAs (blanks ++ text) found := by
  intro before rest hrest
  rw [List.append_assoc, run_blanks hblanks, h hrest]

lemma ScannedAs.before : ScannedAs (text ++ blanks) found := by
  intro before rest hrest
  rw [List.append_assoc, h (hrest.blanks hblanks), run_blanks hblanks]

end

lemma scannedAs_quoted {s : String} {written : List Char} (h : StringText s.toList written) :
    ScannedAs ('"' :: (written ++ ['"'])) [.string (some s)] := by
  intro before rest _
  rw [List.cons_append, List.append_assoc]
  exact run_quoted h

lemma scannedAs_nameText {name : String} {text : List Char} (h : NameText name text) :
    ScannedAs text [.string (some name)] := by
  obtain ⟨hbefore, hwritten, hafter⟩ := h
  simpa using ((scannedAs_quoted hwritten).before hafter).after hbefore

/-- **A text of a value is scanned as the lexemes of the value**, wherever it stands. -/
theorem Spelling.scanned {j : Json} {text : List Char} (h : Spelling j text) :
    ScannedAs text (lexemes j) := by
  induction h with
  | null => exact fun _ _ _ => rfl
  | isTrue => exact fun _ _ _ => rfl
  | isFalse => exact fun _ _ _ => rfl
  | number hnumber => exact fun _ _ hrest => run_number (isNumber_of_mem hnumber) hrest
  | string hwritten => exact scannedAs_quoted hwritten
  | array hblanks _ ih =>
      rw [lexemes, elementLexemes_eq, List.map_map, ← List.append_assoc]
      exact ((scannedAs_intercalate ih).after hblanks).brackets
  | object hblanks hnames _ ih =>
      rw [lexemes, memberLexemes_eq, List.map_map, ← List.append_assoc]
      have hmembers := scannedAs_intercalate fun m hm =>
        scannedAs_member (scannedAs_nameText (hnames m hm)) (ih m hm)
      exact (hmembers.after hblanks).braces
  | padded hbefore _ hafter ih => exact (ih.before hafter).after hbefore

lemma Spelling.legible {j : Json} {text : List Char} (h : Spelling j text) : j.Legible := by
  induction h with
  | null => exact .null
  | isTrue => exact .bool _
  | isFalse => exact .bool _
  | number hnumber => exact .number (isNumber_of_mem hnumber)
  | string _ => exact .string _
  | array _ _ ih => exact .array (List.forall_mem_map.mpr ih)
  | object _ _ _ ih => exact .object (List.forall_mem_map.mpr ih)
  | padded _ _ _ ih => exact ih

/-- **A text of a value is read as the value**, and as nothing more. -/
theorem read_of_spelling {j : Json} {text : String} (h : Spelling j text.toList) :
    read text = (j, true) :=
  h.legible.read_eq h.scanned

end Json

end ItemStore
