import ItemStore.Proofs.Grammar

/-!
# The language of statements

Which sequences of tokens are statements can be said without saying what the statements are: as a
regular language.  The derivations of the grammar are compared with it part by part, so the reader
accepts exactly this language.  What it makes of a statement is then read off the tokens, one kind
of thing at a time.

* `Grammar.statement` and the languages that it is made of — the words of the language are tokens.
* `Grammar.mem_separated`, `Grammar.mem_condition`, `Grammar.mem_clause`, … — the words of a part
  are what is derived for it.
* **`Grammar.mem_statement`** — the words of the language are the tokens of statements.
* `Select.Mentions` — the names, operators, operands and joining words among tokens, in their order.
* **`Select.ofTokens_language`** — which tokens are read as a statement, and as which.
-/

namespace ItemStore

namespace Select

open scoped Computability

/-! ## The language -/

namespace Grammar

/-- One token. -/
def word (t : Token) : Language Token := {[t]}

/-- A bare name, or a quoted one that is not empty. -/
def name : Language Token := {ts | (∃ s, ts = [.name s]) ∨ ∃ s ≠ "", ts = [.quotedName s]}

/-- A string or a number. -/
def value : Language Token := {ts | (∃ s, ts = [.string s]) ∨ ∃ n, ts = [.number n]}

/-- One thing or several, with commas between them. -/
def separated (thing : Language Token) : Language Token := thing * (word .comma * thing)∗

def projection : Language Token := word .star + separated name

def operator : Language Token :=
  word .eq + word .ne + word .lt + word .le + word .gt + word .ge + word .kwIn

def operands : Language Token :=
  value + word .openBracket * separated value * word .closeBracket

def condition : Language Token := name * operator * operands

/-- Further conditions, each behind a joining word. -/
def furtherConditions : Language Token := ((word .kwAnd + word .kwOr) * condition)∗

def index : Language Token := 1 + word .dot * name

def clause : Language Token := 1 + word .kwWhere * condition * furtherConditions

def statement : Language Token :=
  word .kwSelect * projection * word .kwFrom * name * index * clause

variable {ts : List Token}

@[simp] lemma mem_word {t : Token} : ts ∈ word t ↔ ts = [t] := Iff.rfl

/-! ## Words and derivations -/

lemma mem_name : ts ∈ name ↔ ∃ s t, NameToken s t ∧ ts = [t] := by
  constructor
  · rintro (⟨s, rfl⟩ | ⟨s, hs, rfl⟩)
    · exact ⟨s, _, .bare s, rfl⟩
    · exact ⟨s, _, .quoted hs, rfl⟩
  · rintro ⟨s, t, ht, rfl⟩
    cases ht with
    | bare => exact Or.inl ⟨s, rfl⟩
    | quoted hs => exact Or.inr ⟨s, hs, rfl⟩

lemma mem_value : ts ∈ value ↔ ∃ v t, ValueToken v t ∧ ts = [t] := by
  constructor
  · rintro (⟨s, rfl⟩ | ⟨n, rfl⟩)
    · exact ⟨_, _, .text s, rfl⟩
    · exact ⟨_, _, .number n, rfl⟩
  · rintro ⟨v, t, ht, rfl⟩
    cases ht with
    | text s => exact Or.inl ⟨s, rfl⟩
    | number n => exact Or.inr ⟨n, rfl⟩

lemma mem_operator : ts ∈ operator ↔ ∃ op t, (op, t) ∈ comparisons ∧ ts = [t] := by
  constructor
  · rintro ((((((rfl | rfl) | rfl) | rfl) | rfl) | rfl) | rfl)
    exacts [⟨.eq, .eq, by simp [comparisons], rfl⟩, ⟨.ne, .ne, by simp [comparisons], rfl⟩,
      ⟨.lt, .lt, by simp [comparisons], rfl⟩, ⟨.le, .le, by simp [comparisons], rfl⟩,
      ⟨.gt, .gt, by simp [comparisons], rfl⟩, ⟨.ge, .ge, by simp [comparisons], rfl⟩,
      ⟨.isIn, .kwIn, by simp [comparisons], rfl⟩]
  · rintro ⟨op, t, ht, rfl⟩
    simp only [comparisons, List.mem_cons, Prod.mk.injEq, List.not_mem_nil, or_false] at ht
    simp only [operator, Language.mem_add, mem_word, List.cons.injEq, and_true]
    tauto

section

variable {α : Type} {P : α → Token → Prop} {thing : Language Token}

lemma listed_snoc {a : α} {t : Token} {as : List α} (h : Listed P as ts) (ha : P a t) :
    Listed P (as ++ [a]) (ts ++ [.comma, t]) := by
  induction h with
  | one h => exact .more h (.one ha)
  | more h _ ih => exact .more h ih

lemma mem_separated (hthing : ∀ ts, ts ∈ thing ↔ ∃ a t, P a t ∧ ts = [t]) :
    ts ∈ separated thing ↔ ∃ as, Listed P as ts := by
  constructor
  · intro h
    -- the star puts one more thing behind those it has, while a derivation puts it in front
    have hle : separated thing ≤ ({ts | ∃ as, Listed P as ts} : Language Token) := by
      refine mul_kstar_le ?_ ?_
      · intro ts hts
        obtain ⟨a, t, ha, rfl⟩ := (hthing ts).mp hts
        exact ⟨[a], .one ha⟩
      · rintro _ ⟨ts, ⟨as, has⟩, _, ⟨_, rfl, _, hts, rfl⟩, rfl⟩
        obtain ⟨a, t, ha, rfl⟩ := (hthing _).mp hts
        exact ⟨as ++ [a], listed_snoc has ha⟩
    exact hle h
  · rintro ⟨as, h⟩
    induction h with
    | one h => exact ⟨_, (hthing _).mpr ⟨_, _, h, rfl⟩, [], Language.nil_mem_kstar _, rfl⟩
    | more h _ ih =>
        obtain ⟨u, hu, w, hw, rfl⟩ := ih
        have hle := mul_kstar_le_kstar (a := word .comma * thing)
        refine ⟨_, (hthing _).mpr ⟨_, _, h, rfl⟩, .comma :: (u ++ w), ?_, rfl⟩
        exact hle ⟨.comma :: u, ⟨_, rfl, u, hu, rfl⟩, w, hw, rfl⟩

end

lemma mem_projection : ts ∈ projection ↔ ∃ selection, Selects selection ts := by
  rw [projection, Language.mem_add, mem_word, mem_separated fun _ => mem_name]
  constructor
  · rintro (rfl | ⟨names, h⟩)
    · exact ⟨_, .all⟩
    · exact ⟨_, .listed h⟩
  · rintro ⟨selection, h⟩
    cases h with
    | all => exact Or.inl rfl
    | listed h => exact Or.inr ⟨_, h⟩

lemma mem_index : ts ∈ index ↔ ∃ name, Indexed name ts := by
  rw [index, Language.mem_add, Language.mem_one, Language.mem_mul]
  constructor
  · rintro (rfl | ⟨_, rfl, _, hname, rfl⟩)
    · exact ⟨_, .none⟩
    · obtain ⟨s, t, ht, rfl⟩ := mem_name.mp hname
      exact ⟨_, .some ht⟩
  · rintro ⟨name, h⟩
    cases h with
    | none => exact Or.inl rfl
    | some h => exact Or.inr ⟨_, rfl, _, mem_name.mpr ⟨_, _, h, rfl⟩, rfl⟩

lemma mem_operands : ts ∈ operands ↔ ∃ vs, Operands vs ts := by
  rw [operands, Language.mem_add, Language.mem_mul]
  constructor
  · rintro (hvalue | ⟨_, ⟨_, rfl, _, hvalues, rfl⟩, _, rfl, rfl⟩)
    · obtain ⟨v, t, ht, rfl⟩ := mem_value.mp hvalue
      exact ⟨_, .bare ht⟩
    · obtain ⟨vs, hvs⟩ := (mem_separated fun _ => mem_value).mp hvalues
      exact ⟨_, .bracketed hvs⟩
  · rintro ⟨vs, h⟩
    cases h with
    | bare h => exact Or.inl (mem_value.mpr ⟨_, _, h, rfl⟩)
    | bracketed h =>
        have hvalues := (mem_separated fun _ => mem_value).mpr ⟨_, h⟩
        exact Or.inr ⟨_, ⟨_, rfl, _, hvalues, rfl⟩, _, rfl, rfl⟩

lemma mem_condition : ts ∈ condition ↔ ∃ c, Conditional c ts := by
  rw [condition, Language.mem_mul]
  constructor
  · rintro ⟨_, ⟨_, hname, _, hoperator, rfl⟩, _, hoperands, rfl⟩
    obtain ⟨s, name, hs, rfl⟩ := mem_name.mp hname
    obtain ⟨op, symbol, hop, rfl⟩ := mem_operator.mp hoperator
    obtain ⟨vs, hvs⟩ := mem_operands.mp hoperands
    exact ⟨_, .mk hs hop hvs⟩
  · rintro ⟨c, h⟩
    cases h with
    | mk hname hsymbol hoperands =>
        have hname' := mem_name.mpr ⟨_, _, hname, rfl⟩
        have hsymbol' := mem_operator.mpr ⟨_, _, hsymbol, rfl⟩
        exact ⟨_, ⟨_, hname', _, hsymbol', rfl⟩, _, mem_operands.mpr ⟨_, hoperands⟩, rfl⟩

lemma mem_furtherConditions : ts ∈ furtherConditions ↔ ∃ cs, Joined cs ts := by
  constructor
  · intro h
    have hle : furtherConditions ≤ ({ts | ∃ cs, Joined cs ts} : Language Token) := by
      refine kstar_le_of_mul_le_right ?_ ?_
      · rintro _ rfl
        exact ⟨[], .nil⟩
      · rintro _ ⟨_, ⟨_, hjoiner, ts, hcondition, rfl⟩, rest, ⟨cs, hcs⟩, rfl⟩
        obtain ⟨c, hc⟩ := mem_condition.mp hcondition
        rcases hjoiner with rfl | rfl
        · exact ⟨_, Joined.cons (j := .all) hc hcs⟩
        · exact ⟨_, Joined.cons (j := .any) hc hcs⟩
    exact hle h
  · rintro ⟨cs, h⟩
    induction h with
    | nil => exact Language.nil_mem_kstar _
    | @cons j c cs ts rest hc _ ih =>
        have hle := mul_kstar_le_kstar (a := (word .kwAnd + word .kwOr) * condition)
        have hjoiner : [joiner j] ∈ word .kwAnd + word .kwOr := by
          cases j with
          | all => exact Or.inl rfl
          | any => exact Or.inr rfl
        exact hle ⟨_, ⟨_, hjoiner, ts, mem_condition.mpr ⟨c, hc⟩, rfl⟩, rest, ih, rfl⟩

lemma mem_clause : ts ∈ clause ↔ ∃ combinator conditions, Clause combinator conditions ts := by
  rw [clause, Language.mem_add, Language.mem_one, Language.mem_mul]
  constructor
  · rintro (rfl | ⟨_, ⟨_, rfl, _, hcondition, rfl⟩, _, hfurther, rfl⟩)
    · exact ⟨_, _, .none⟩
    · obtain ⟨c, hc⟩ := mem_condition.mp hcondition
      obtain ⟨cs, hcs⟩ := mem_furtherConditions.mp hfurther
      exact ⟨_, _, .conditions (combinator_eq_iff.mp rfl) hc hcs⟩
  · rintro ⟨combinator, conditions, h⟩
    cases h with
    | none => exact Or.inl rfl
    | conditions _ hc hcs =>
        exact Or.inr ⟨_, ⟨_, rfl, _, mem_condition.mpr ⟨_, hc⟩, rfl⟩, _,
          mem_furtherConditions.mpr ⟨_, hcs⟩, rfl⟩

/-- **The words of the language are what statements derive.** -/
theorem mem_statement : ts ∈ statement ↔ ∃ s, Derives s ts := by
  simp only [statement, mul_assoc]
  constructor
  · rintro ⟨_, rfl, _, ⟨_, hprojection, _, ⟨_, rfl, _, ⟨_, hname, _, ⟨_, hindex, _, hclause, rfl⟩,
      rfl⟩, rfl⟩, rfl⟩, rfl⟩
    obtain ⟨selection, hselection⟩ := mem_projection.mp hprojection
    obtain ⟨table, t, ht, rfl⟩ := mem_name.mp hname
    obtain ⟨index, hindex⟩ := mem_index.mp hindex
    obtain ⟨combinator, conditions, hclause⟩ := mem_clause.mp hclause
    exact ⟨⟨table, index, selection, combinator, conditions⟩,
      by simpa using Derives.mk hselection ht hindex hclause⟩
  · rintro ⟨s, hselection, htable, hindex, hclause⟩
    exact ⟨_, rfl, _, ⟨_, mem_projection.mpr ⟨_, hselection⟩, _, ⟨_, rfl, _,
      ⟨_, mem_name.mpr ⟨_, _, htable, rfl⟩, _, ⟨_, mem_index.mpr ⟨_, hindex⟩, _,
        mem_clause.mpr ⟨_, _, hclause⟩, rfl⟩, rfl⟩, rfl⟩, rfl⟩, rfl⟩

end Grammar

/-! ## What the tokens mention -/

/-- The names, operators, operands and joining words among tokens, each in their order. -/
structure Mentions (ts : List Token) (names : List String) (operators : List Operator)
    (operands : List Value) (joiners : List Combinator) : Prop where
  names_eq : ts.filterMap nameOf? = names
  operators_eq : ts.filterMap operatorOf? = operators
  operands_eq : ts.filterMap valueOf? = operands
  joiners_eq : ts.filterMap combinatorOf? = joiners

variable {t : Token} {ts ts' : List Token} {names names' : List String}
  {operators operators' : List Operator} {operands operands' : List Value}
  {joiners joiners' : List Combinator}

namespace Mentions

lemma append (h : Mentions ts names operators operands joiners)
    (h' : Mentions ts' names' operators' operands' joiners') :
    Mentions (ts ++ ts') (names ++ names') (operators ++ operators') (operands ++ operands')
      (joiners ++ joiners') := by
  obtain ⟨rfl, rfl, rfl, rfl⟩ := h
  obtain ⟨rfl, rfl, rfl, rfl⟩ := h'
  exact ⟨List.filterMap_append, List.filterMap_append, List.filterMap_append,
    List.filterMap_append⟩

/-- A token behind it that mentions nothing. -/
lemma append_silent (h : Mentions ts names operators operands joiners)
    (ht : Mentions [t] [] [] [] []) : Mentions (ts ++ [t]) names operators operands joiners := by
  simpa using h.append ht

/-- A token in front that mentions nothing. -/
lemma cons_silent (ht : Mentions [t] [] [] [] [])
    (h : Mentions ts names operators operands joiners) :
    Mentions (t :: ts) names operators operands joiners :=
  ht.append h

end Mentions

lemma mentions_of_nameToken {s : String} (h : NameToken s t) : Mentions [t] [s] [] [] [] := by
  cases h with
  | bare => exact ⟨rfl, rfl, rfl, rfl⟩
  | quoted hs => exact ⟨by simp [nameOf?, hs], rfl, rfl, rfl⟩

lemma mentions_of_valueToken {v : Value} (h : ValueToken v t) : Mentions [t] [] [] [v] [] := by
  cases h <;> exact ⟨rfl, rfl, rfl, rfl⟩

lemma mentions_of_comparisons {op : Operator} (h : (op, t) ∈ comparisons) :
    Mentions [t] [] [op] [] [] := by
  simp only [comparisons, List.mem_cons, Prod.mk.injEq, List.not_mem_nil, or_false] at h
  rcases h with ⟨rfl, rfl⟩ | ⟨rfl, rfl⟩ | ⟨rfl, rfl⟩ | ⟨rfl, rfl⟩ | ⟨rfl, rfl⟩ | ⟨rfl, rfl⟩ |
    ⟨rfl, rfl⟩ <;> exact ⟨rfl, rfl, rfl, rfl⟩

lemma mentions_joiner (j : Combinator) : Mentions [joiner j] [] [] [] [j] := by
  cases j <;> exact ⟨rfl, rfl, rfl, rfl⟩

lemma mentions_of_listed_names (h : Listed NameToken names ts) : Mentions ts names [] [] [] := by
  induction h with
  | one h => exact mentions_of_nameToken h
  | more h _ ih => exact (mentions_of_nameToken h).append (.cons_silent ⟨rfl, rfl, rfl, rfl⟩ ih)

lemma mentions_of_listed_values (h : Listed ValueToken operands ts) :
    Mentions ts [] [] operands [] := by
  induction h with
  | one h => exact mentions_of_valueToken h
  | more h _ ih => exact (mentions_of_valueToken h).append (.cons_silent ⟨rfl, rfl, rfl, rfl⟩ ih)

lemma mentions_of_selects {selection : Selection} (h : Selects selection ts) :
    Mentions ts selection.names [] [] [] := by
  cases h with
  | all => exact ⟨rfl, rfl, rfl, rfl⟩
  | listed h => exact mentions_of_listed_names h

lemma mentions_of_indexed {index : Option String} (h : Indexed index ts) :
    Mentions ts index.toList [] [] [] := by
  cases h with
  | none => exact ⟨rfl, rfl, rfl, rfl⟩
  | some h => exact .cons_silent ⟨rfl, rfl, rfl, rfl⟩ (mentions_of_nameToken h)

lemma mentions_of_operands (h : Operands operands ts) : Mentions ts [] [] operands [] := by
  cases h with
  | bare h => exact mentions_of_valueToken h
  | bracketed h =>
      exact .cons_silent ⟨rfl, rfl, rfl, rfl⟩
        ((mentions_of_listed_values h).append_silent ⟨rfl, rfl, rfl, rfl⟩)

lemma mentions_of_conditional {c : String × Condition} (h : Conditional c ts) :
    Mentions ts [c.1] [c.2.operator] c.2.operands [] := by
  cases h with
  | mk hname hsymbol hoperands =>
      exact (mentions_of_nameToken hname).append
        ((mentions_of_comparisons hsymbol).append (mentions_of_operands hoperands))

lemma mentions_of_joined {cs : List (Combinator × String × Condition)} (h : Joined cs ts) :
    Mentions ts (cs.map fun d => d.2.1) (cs.map fun d => d.2.2.operator)
      (cs.flatMap fun d => d.2.2.operands) (cs.map Prod.fst) := by
  induction h with
  | nil => exact ⟨rfl, rfl, rfl, rfl⟩
  | @cons j c cs ts rest hc _ ih =>
      exact (mentions_joiner j).append ((mentions_of_conditional hc).append ih)

lemma mentions_of_clause {combinator : Combinator} {conditions : List (String × Condition)}
    (h : Clause combinator conditions ts) :
    ∃ joiners, Mentions ts (conditions.map Prod.fst) (conditions.map fun c => c.2.operator)
      (conditions.flatMap fun c => c.2.operands) joiners ∧
        (combinator = .any ↔ .any ∈ joiners) := by
  cases h with
  | none => exact ⟨[], ⟨rfl, rfl, rfl, rfl⟩, by simp⟩
  | @conditions _ c cs ts rest hcombinator hc hcs =>
      refine ⟨cs.map Prod.fst, .cons_silent ⟨rfl, rfl, rfl, rfl⟩ ?_, hcombinator⟩
      have hmentions := (mentions_of_conditional hc).append (mentions_of_joined hcs)
      simpa [List.map_map, List.flatMap_map, Function.comp_def] using hmentions

lemma any_mem_joiners_iff : .any ∈ ts.filterMap combinatorOf? ↔ .kwOr ∈ ts := by
  rw [List.mem_filterMap]
  constructor
  · rintro ⟨t, ht, hany⟩
    rwa [← joiner_of_combinatorOf? hany] at ht
  · exact fun h => ⟨_, h, rfl⟩

/-- **What the tokens of a statement mention**, from front to back. -/
theorem mentions_of_derives {s : Select} (h : Derives s ts) :
    ∃ joiners, Mentions ts
      (s.selection.names ++ s.table :: (s.index.toList ++ s.conditions.map Prod.fst))
      (s.conditions.map fun c => c.2.operator) (s.conditions.flatMap fun c => c.2.operands)
      joiners ∧ (s.combinator = .any ↔ .any ∈ joiners) := by
  obtain ⟨hselection, htable, hindex, hclause⟩ := h
  obtain ⟨joiners, hmentions, hcombinator⟩ := mentions_of_clause hclause
  refine ⟨joiners, .cons_silent ⟨rfl, rfl, rfl, rfl⟩ ?_, hcombinator⟩
  have hsource : Mentions (.kwFrom :: _) _ _ _ _ := .cons_silent ⟨rfl, rfl, rfl, rfl⟩
    ((mentions_of_nameToken htable).append ((mentions_of_indexed hindex).append hmentions))
  simpa using (mentions_of_selects hselection).append hsource

/-- **The statements and their meaning.**  Tokens are read as a statement exactly if they are a word
of the language, and as the one that they derive.  It names what the tokens name, in their order:
what is selected, the table, the index if there is one, and an attribute in each condition.  It has
the operators and the operands that the tokens have, spelled as these are.  Its conditions are
joined as a disjunction exactly if there is an `OR` among the tokens. -/
theorem ofTokens_language (ts : List Token) :
    ((∃ s, ofTokens ts = .ok s) ↔ ts ∈ Grammar.statement) ∧
      ∀ s, (ofTokens ts = .ok s ↔ Derives s ts) ∧
        (ofTokens ts = .ok s →
          ts.filterMap nameOf?
              = s.selection.names ++ s.table :: (s.index.toList ++ s.conditions.map Prod.fst) ∧
            ts.filterMap operatorOf? = s.conditions.map (fun c => c.2.operator) ∧
            ts.filterMap valueOf? = s.conditions.flatMap (fun c => c.2.operands) ∧
            (s.combinator = .any ↔ .kwOr ∈ ts)) := by
  have hread : ∀ s, ofTokens ts = .ok s ↔ Derives s ts := fun s =>
    ⟨derives_of_ofTokens, ofTokens_of_derives⟩
  refine ⟨by rw [Grammar.mem_statement]; exact exists_congr hread, fun s => ⟨hread s, fun h => ?_⟩⟩
  obtain ⟨joiners, hmentions, hcombinator⟩ := mentions_of_derives (derives_of_ofTokens h)
  refine ⟨hmentions.names_eq, hmentions.operators_eq, hmentions.operands_eq, ?_⟩
  rw [hcombinator, ← hmentions.joiners_eq, any_mem_joiners_iff]

/-- `SELECT Id, "Data" FROM orders WHERE a = 1 OR b IN ['x', 2]`, in tokens. -/
theorem ofTokens_language_sample :
    ofTokens [.kwSelect, .name "Id", .comma, .quotedName "Data", .kwFrom, .name "orders", .kwWhere,
        .name "a", .eq, .number "1", .kwOr, .name "b", .kwIn, .openBracket, .string "x", .comma,
        .number "2", .closeBracket]
      = .ok ⟨"orders", none, .listed ["Id", "Data"], .any,
          [("a", ⟨.eq, [.number "1"]⟩), ("b", ⟨.isIn, [.text "x", .number "2"]⟩)]⟩ ∧
    [.kwSelect, .name "Id", .comma, .quotedName "Data", .kwFrom, .name "orders", .kwWhere,
        .name "a", .eq, .number "1", .kwOr, .name "b", .kwIn, .openBracket, .string "x", .comma,
        .number "2", .closeBracket] ∈ Grammar.statement := by
  obtain ⟨hlanguage, hstatements⟩ := ofTokens_language [.kwSelect, .name "Id", .comma,
    .quotedName "Data", .kwFrom, .name "orders", .kwWhere, .name "a", .eq, .number "1", .kwOr,
    .name "b", .kwIn, .openBracket, .string "x", .comma, .number "2", .closeBracket]
  have hnames : Selects (.listed ["Id", "Data"]) [.name "Id", .comma, .quotedName "Data"] :=
    .listed (.more (.bare _) (.one (.quoted (by decide))))
  have hfirst : Conditional ("a", ⟨.eq, [.number "1"]⟩) [.name "a", .eq, .number "1"] :=
    .mk (.bare _) (by simp [comparisons]) (.bare (.number _))
  have hsecond : Conditional ("b", ⟨.isIn, [.text "x", .number "2"]⟩)
      [.name "b", .kwIn, .openBracket, .string "x", .comma, .number "2", .closeBracket] :=
    .mk (.bare _) (by simp [comparisons]) (.bracketed (.more (.text _) (.one (.number _))))
  have hclause : Clause .any [("a", ⟨.eq, [.number "1"]⟩), ("b", ⟨.isIn, [.text "x", .number "2"]⟩)]
      _ := .conditions (by simp) hfirst (.cons (j := .any) hsecond .nil)
  have hderives : Derives ⟨"orders", none, .listed ["Id", "Data"], .any, _⟩ _ :=
    .mk hnames (.bare _) .none hclause
  have hread := (hstatements _).1.mpr hderives
  exact ⟨hread, hlanguage.mp ⟨_, hread⟩⟩

end Select

end ItemStore
