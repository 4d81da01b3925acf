import ItemStore.Proofs.Grammar
import ItemStore.Proofs.Lexemes

/-!
# Renderings of statements

A statement is written down as tokens that it derives, with blanks between them.  Whatever text
stands in its names and strings, the reader gets the statement back: quotes are doubled and so never
close what they stand in, and a blank ends each of the other tokens.

* `Select.Rendering` — a text that renders a statement.
* `Select.Expressible` — a statement that has a rendering: what it names is named, and its operands
  are texts and numerals.
* `Select.exists_read_all` — a statement that was read can be written again for whole items.
* **`Select.read_rendering`** — an expressible statement has renderings, and each is read as the
  statement.
-/

namespace ItemStore

namespace Select

/-- A text that renders a statement, with one blank or more between any two tokens. -/
def Rendering (s : Select) (text : String) : Prop :=
  ∃ ts, Derives s ts ∧ Token.Spaced ts text.toList

/-- A value that can stand in a statement. -/
def Literal : Value → Prop
  | .text _ => True
  | .number n => isNumeral n = true
  | _ => False

/-- A condition that can stand in a statement. -/
structure Expresses (c : String × Condition) : Prop where
  name : c.1 ≠ ""
  operator : c.2.operator ∈ comparisons.map Prod.fst
  operands : c.2.operands ≠ []
  literals : ∀ v ∈ c.2.operands, Literal v

/-- A statement that can be written down. -/
structure Expressible (s : Select) : Prop where
  table : s.table ≠ ""
  index : s.index ≠ some ""
  selection : ∀ names, s.selection = .listed names → names ≠ [] ∧ "" ∉ names
  conditions : ∀ c ∈ s.conditions, Expresses c
  disjunction : s.combinator = .any → 2 ≤ s.conditions.length

/-! ## Derivations that can be written -/

/-- Some derivation is made of tokens that can be written. -/
def Writable (derives : List Token → Prop) : Prop :=
  ∃ ts, derives ts ∧ ∀ t ∈ ts, t.Spellable

lemma writable_name {s : String} (hs : s ≠ "") : ∃ t, NameToken s t ∧ t.Spellable :=
  ⟨.quotedName s, .quoted hs, Token.spellable_of_always rfl⟩

lemma writable_value {v : Value} (h : Literal v) : ∃ t, ValueToken v t ∧ t.Spellable := by
  cases v with
  | text s => exact ⟨.string s, .text s, Token.spellable_of_always rfl⟩
  | number n => exact ⟨.number n, .number n, ⟨n.toList, .number h⟩⟩
  | _ => cases h

lemma writable_listed {α : Type} {P : α → Token → Prop} {as : List α} (hne : as ≠ [])
    (h : ∀ a ∈ as, ∃ t, P a t ∧ t.Spellable) : Writable (Listed P as) := by
  induction as with
  | nil => exact absurd rfl hne
  | cons a as ih =>
      obtain ⟨⟨t, ht, hspell⟩, has⟩ := List.forall_mem_cons.mp h
      cases as with
      | nil => exact ⟨[t], .one ht, by simpa using hspell⟩
      | cons b bs =>
          obtain ⟨ts, hts, hspells⟩ := ih (List.cons_ne_nil b bs) has
          have hcomma : Token.comma.Spellable := Token.spellable_of_always rfl
          exact ⟨t :: .comma :: ts, .more ht hts,
            List.forall_mem_cons.mpr ⟨hspell, List.forall_mem_cons.mpr ⟨hcomma, hspells⟩⟩⟩

lemma writable_selects {selection : Selection}
    (h : ∀ names, selection = .listed names → names ≠ [] ∧ "" ∉ names) :
    Writable (Selects selection) := by
  cases selection with
  | all => exact ⟨[.star], .all, by simpa using Token.spellable_of_always rfl⟩
  | listed names =>
      obtain ⟨hne, hempty⟩ := h names rfl
      obtain ⟨ts, hts, hspells⟩ := writable_listed (P := NameToken) hne fun s hs =>
        writable_name fun hnil => hempty (hnil ▸ hs)
      exact ⟨ts, .listed hts, hspells⟩

lemma writable_indexed {index : Option String} (h : index ≠ some "") :
    Writable (Indexed index) := by
  cases index with
  | none => exact ⟨[], .none, List.forall_mem_nil _⟩
  | some s =>
      obtain ⟨t, ht, hspell⟩ := writable_name fun hnil => h (congrArg some hnil)
      have hdot : Token.dot.Spellable := Token.spellable_of_always rfl
      exact ⟨[.dot, t], .some ht, by simpa using ⟨hdot, hspell⟩⟩

lemma spellable_of_comparisons {op : Operator} {t : Token} (h : (op, t) ∈ comparisons) :
    t.Spellable := by
  simp only [comparisons, List.mem_cons, Prod.mk.injEq, List.not_mem_nil, or_false] at h
  rcases h with ⟨-, rfl⟩ | ⟨-, rfl⟩ | ⟨-, rfl⟩ | ⟨-, rfl⟩ | ⟨-, rfl⟩ | ⟨-, rfl⟩ | ⟨-, rfl⟩ <;>
    exact Token.spellable_of_always rfl

lemma writable_operands {vs : List Value} (hne : vs ≠ []) (h : ∀ v ∈ vs, Literal v) :
    Writable (Operands vs) := by
  obtain ⟨ts, hts, hspells⟩ := writable_listed (P := ValueToken) hne fun v hv =>
    writable_value (h v hv)
  have hopen : Token.openBracket.Spellable := Token.spellable_of_always rfl
  have hclose : Token.closeBracket.Spellable := Token.spellable_of_always rfl
  refine ⟨_, .bracketed hts, List.forall_mem_cons.mpr ⟨hopen, ?_⟩⟩
  exact List.forall_mem_append.mpr ⟨hspells, by simpa using hclose⟩

lemma writable_conditional {c : String × Condition} (h : Expresses c) :
    Writable (Conditional c) := by
  obtain ⟨name, hname, hspellName⟩ := writable_name h.name
  obtain ⟨⟨op, symbol⟩, hsymbol, hop⟩ := List.mem_map.mp h.operator
  obtain ⟨ts, hts, hspells⟩ := writable_operands h.operands h.literals
  obtain ⟨s, operator, operands⟩ := c
  obtain rfl : op = operator := hop
  exact ⟨_, .mk hname hsymbol hts, List.forall_mem_cons.mpr ⟨hspellName,
    List.forall_mem_cons.mpr ⟨spellable_of_comparisons hsymbol, hspells⟩⟩⟩

/-- All joined alike. -/
lemma writable_joined (j : Combinator) {conditions : List (String × Condition)}
    (h : ∀ c ∈ conditions, Expresses c) :
    Writable (Joined (conditions.map fun c => (j, c))) := by
  induction conditions with
  | nil => exact ⟨[], .nil, List.forall_mem_nil _⟩
  | cons c conditions ih =>
      obtain ⟨hc, hconditions⟩ := List.forall_mem_cons.mp h
      obtain ⟨ts, hts, hspells⟩ := writable_conditional hc
      obtain ⟨rest, hrest, hspellsRest⟩ := ih hconditions
      have hj : (joiner j).Spellable := by
        cases j <;> exact Token.spellable_of_always rfl
      exact ⟨_, .cons hts hrest, List.forall_mem_cons.mpr ⟨hj,
        List.forall_mem_append.mpr ⟨hspells, hspellsRest⟩⟩⟩

lemma writable_clause {combinator : Combinator} {conditions : List (String × Condition)}
    (h : ∀ c ∈ conditions, Expresses c) (hany : combinator = .any → 2 ≤ conditions.length) :
    Writable (Clause combinator conditions) := by
  cases conditions with
  | nil =>
      cases combinator with
      | all => exact ⟨[], .none, List.forall_mem_nil _⟩
      | any => exact absurd (hany rfl) (by simp)
  | cons c conditions =>
      obtain ⟨hc, hconditions⟩ := List.forall_mem_cons.mp h
      obtain ⟨ts, hts, hspells⟩ := writable_conditional hc
      obtain ⟨rest, hrest, hspellsRest⟩ := writable_joined combinator hconditions
      have hclause : Clause combinator
          (c :: (conditions.map fun d => (combinator, d)).map Prod.snd)
          (.kwWhere :: (ts ++ rest)) := by
        refine .conditions ⟨fun hcombinator => ?_, fun hmem => ?_⟩ hts hrest
        · obtain ⟨d, ds, rfl⟩ : ∃ d ds, conditions = d :: ds :=
            List.exists_cons_of_length_pos (Nat.le_of_succ_le_succ (hany hcombinator))
          simp [hcombinator]
        · obtain ⟨d, hd, hfst⟩ := List.mem_map.mp hmem
          obtain ⟨_, _, rfl⟩ := List.mem_map.mp hd
          exact hfst
      have hwhere : Token.kwWhere.Spellable := Token.spellable_of_always rfl
      refine ⟨_, ?_, List.forall_mem_cons.mpr ⟨hwhere,
        List.forall_mem_append.mpr ⟨hspells, hspellsRest⟩⟩⟩
      simpa [Function.comp_def] using hclause

lemma writable_derives {s : Select} (h : Expressible s) : Writable (Derives s) := by
  obtain ⟨selection, hselection, hspellsSelection⟩ := writable_selects h.selection
  obtain ⟨table, htable, hspellTable⟩ := writable_name h.table
  obtain ⟨index, hindex, hspellsIndex⟩ := writable_indexed h.index
  obtain ⟨clause, hclause, hspellsClause⟩ := writable_clause h.conditions h.disjunction
  have hselect : Token.kwSelect.Spellable := Token.spellable_of_always rfl
  have hfrom : Token.kwFrom.Spellable := Token.spellable_of_always rfl
  refine ⟨_, .mk hselection htable hindex hclause, ?_⟩
  simp only [List.forall_mem_cons, List.forall_mem_append]
  exact ⟨hselect, hspellsSelection, hfrom, hspellTable, hspellsIndex, hspellsClause⟩

/-! ## Reading renderings -/

section

variable {s : Select} {text : String}

lemma exists_rendering (h : Writable (Derives s)) : ∃ text, Rendering s text := by
  obtain ⟨ts, hts, hspells⟩ := h
  obtain ⟨text, htext⟩ := Token.exists_spaced hspells
  exact ⟨String.ofList (' ' :: text), ts, hts, by rwa [String.toList_ofList]⟩

/-- A rendering is read token by token, and its tokens part by part. -/
lemma read_of_rendering (h : Rendering s text) : read text = .ok s := by
  obtain ⟨ts, hts, hspaced⟩ := h
  exact bind_eq_ok.mpr ⟨ts, Token.tokens_of_spelt hspaced.spelt, ofTokens_of_derives hts⟩

/-- A statement that was read can be written again, with another selection. -/
theorem exists_read_all (h : read text = .ok s) :
    ∃ text', read text' = .ok { s with selection := .all } := by
  obtain ⟨ts, htokens, hts⟩ := bind_eq_ok.mp h
  have hspells := (Token.spelt_of_tokens htokens).spellable
  obtain @⟨selection, index, clause, table, -, htable, hindex, hclause⟩ := derives_of_ofTokens hts
  have hstar : Token.star.Spellable := Token.spellable_of_always rfl
  have hderives : Derives { s with selection := .all }
      (.kwSelect :: ([.star] ++ .kwFrom :: table :: (index ++ clause))) :=
    .mk .all htable hindex hclause
  have hwritable : Writable (Derives { s with selection := .all }) := by
    refine ⟨_, hderives, ?_⟩
    simp only [List.forall_mem_cons, List.forall_mem_append] at hspells ⊢
    obtain ⟨hselect, -, hrest⟩ := hspells
    exact ⟨hselect, ⟨hstar, List.forall_mem_nil _⟩, hrest⟩
  obtain ⟨text', htext'⟩ := exists_rendering hwritable
  exact ⟨text', read_of_rendering htext'⟩

end

/-- **A statement that can be written down has renderings, and each of them is read as the
statement.** -/
theorem read_rendering (s : Select) (h : Expressible s) :
    (∃ text, Rendering s text) ∧ ∀ text, Rendering s text → read text = .ok s :=
  ⟨exists_rendering (writable_derives h), fun _ => read_of_rendering⟩

/-- A statement whose names and texts hold quotes, keywords, brackets and blanks. -/
def quoteful : Select where
  table := "a\"b"
  index := some "select"
  selection := .listed ["it's", "x y", "*"]
  combinator := .any
  conditions :=
    [ ("from", ⟨.ne, [.text "it''s ] \"where\""]⟩), ("or", ⟨.isIn, [.number "-1.5e+3", .text ""]⟩)]

theorem read_rendering_quoteful :
    Expressible quoteful ∧ ∃ text, Rendering quoteful text ∧ read text = .ok quoteful := by
  have h : Expressible quoteful := by
    refine ⟨by decide, by decide, ?_, ?_, fun _ => le_rfl⟩
    · rintro names ⟨⟩
      decide
    · simp only [quoteful, List.forall_mem_cons]
      refine ⟨⟨by decide, by decide, by decide, ?_⟩, ⟨by decide, by decide, by decide, ?_⟩,
        List.forall_mem_nil _⟩
      · simp [Literal]
      · simp only [List.forall_mem_cons, Literal]
        exact ⟨by decide +kernel, trivial, List.forall_mem_nil _⟩
  obtain ⟨⟨text, htext⟩, hread⟩ := read_rendering quoteful h
  exact ⟨h, text, htext, hread text htext⟩

example : read "select \"it's\" From \"a\"\"b\" Where \"from\"!='it''s' oR x in [-1.5e+3,'']"
    = .ok ⟨"a\"b", none, .listed ["it's"], .any,
        [("from", ⟨.ne, [.text "it's"]⟩), ("x", ⟨.isIn, [.number "-1.5e+3", .text ""]⟩)]⟩ := by
  decide +kernel

end Select

end ItemStore
