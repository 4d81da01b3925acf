import ItemStore.Proofs.Keys
import ItemStore.Select.Reader

/-!
# The grammar of statements

What a statement derives is a sequence of tokens.  The relations say this part by part, without the
functions that read the parts, and then the two are compared: each function reads a derived part
from the front of the tokens, and what it takes off the front is derived.

* `Select.Listed`, `Select.Selects`, `Select.Indexed`, `Select.Operands`, `Select.Conditional`,
  `Select.Joined`, `Select.Clause` — the parts of a statement and their tokens.
* `Select.Derives` — a whole statement and its tokens.
* **`Select.ofTokens_of_derives`**, **`Select.derives_of_ofTokens`** — a statement is read from the
  tokens that it derives, and from no others.
-/

namespace ItemStore

namespace Select

/-! ## Derivations -/

/-- A token that names something.  Quoted names are not empty. -/
inductive NameToken : String → Token → Prop
  | bare (s : String) : NameToken s (.name s)
  | quoted {s : String} (hs : s ≠ "") : NameToken s (.quotedName s)

/-- A token that stands for a value. -/
inductive ValueToken : Value → Token → Prop
  | text (s : String) : ValueToken (.text s) (.string s)
  | number (n : String) : ValueToken (.number n) (.number n)

/-- The comparisons, and how they are written. -/
def comparisons : List (Operator × Token) :=
  [ (.eq, .eq), (.ne, .ne), (.lt, .lt), (.le, .le), (.gt, .gt), (.ge, .ge), (.isIn, .kwIn)]

/-- The word that joins a condition to those before it. -/
def joiner : Combinator → Token
  | .all => .kwAnd
  | .any => .kwOr

/-- One thing or several, with commas between them. -/
inductive Listed {α : Type} (P : α → Token → Prop) : List α → List Token → Prop
  | one {a : α} {t : Token} (h : P a t) : Listed P [a] [t]
  | more {a : α} {t : Token} {as : List α} {ts : List Token} (h : P a t) (hrest : Listed P as ts) :
      Listed P (a :: as) (t :: .comma :: ts)

/-- What is selected. -/
inductive Selects : Selection → List Token → Prop
  | all : Selects .all [.star]
  | listed {names : List String} {ts : List Token} (h : Listed NameToken names ts) :
      Selects (.listed names) ts

/-- An index, if one is named. -/
inductive Indexed : Option String → List Token → Prop
  | none : Indexed none []
  | some {s : String} {t : Token} (h : NameToken s t) : Indexed (some s) [.dot, t]

/-- Operands, a single one bare or all in brackets. -/
inductive Operands : List Value → List Token → Prop
  | bare {v : Value} {t : Token} (h : ValueToken v t) : Operands [v] [t]
  | bracketed {vs : List Value} {ts : List Token} (h : Listed ValueToken vs ts) :
      Operands vs (.openBracket :: (ts ++ [.closeBracket]))

/-- A condition on a named attribute. -/
inductive Conditional : String × Condition → List Token → Prop
  | mk {s : String} {name symbol : Token} {op : Operator} {vs : List Value} {ts : List Token}
      (hname : NameToken s name) (hsymbol : (op, symbol) ∈ comparisons)
      (hoperands : Operands vs ts) :
      Conditional (s, ⟨op, vs⟩) (name :: symbol :: ts)

/-- Further conditions, each behind the word that joins it. -/
inductive Joined : List (Combinator × String × Condition) → List Token → Prop
  | nil : Joined [] []
  | cons {j : Combinator} {c : String × Condition} {cs : List (Combinator × String × Condition)}
      {ts rest : List Token} (hc : Conditional c ts) (hrest : Joined cs rest) :
      Joined ((j, c) :: cs) (joiner j :: (ts ++ rest))

/-- The clause of conditions.  One disjunction makes a disjunction of all. -/
inductive Clause : Combinator → List (String × Condition) → List Token → Prop
  | none : Clause .all [] []
  | conditions {combinator : Combinator} {c : String × Condition}
      {cs : List (Combinator × String × Condition)} {ts rest : List Token}
      (hcombinator : combinator = .any ↔ .any ∈ cs.map Prod.fst) (hc : Conditional c ts)
      (hcs : Joined cs rest) :
      Clause combinator (c :: cs.map Prod.snd) (.kwWhere :: (ts ++ rest))

/-- A whole statement. -/
inductive Derives (s : Select) : List Token → Prop
  | mk {selection index clause : List Token} {table : Token}
      (hselection : Selects s.selection selection)
      (htable : NameToken s.table table) (hindex : Indexed s.index index)
      (hclause : Clause s.combinator s.conditions clause) :
      Derives s (.kwSelect :: (selection ++ .kwFrom :: table :: (index ++ clause)))

/-! ## The reader follows derivations -/

section

variable {α : Type} {P : α → Token → Prop} {expected : Expected} {meaning : Token → Option α}
  {a : α} {as : List α} {t : Token} {ts rest : List Token}

lemma nameOf?_of_nameToken {s : String} (h : NameToken s t) : nameOf? t = some s := by
  cases h with
  | bare => rfl
  | quoted hs => simp [nameOf?, hs]

lemma valueOf?_of_valueToken {v : Value} (h : ValueToken v t) : valueOf? t = some v := by
  cases h <;> rfl

lemma operatorOf?_of_comparisons {op : Operator} (h : (op, t) ∈ comparisons) :
    operatorOf? t = some op := by
  simp only [comparisons, List.mem_cons, Prod.mk.injEq, List.not_mem_nil, or_false] at h
  rcases h with ⟨rfl, rfl⟩ | ⟨rfl, rfl⟩ | ⟨rfl, rfl⟩ | ⟨rfl, rfl⟩ | ⟨rfl, rfl⟩ | ⟨rfl, rfl⟩ |
    ⟨rfl, rfl⟩ <;> rfl

lemma one_cons (h : meaning t = some a) : one expected meaning (t :: ts) = .ok (a, ts) := by
  rw [one, h]

lemma more_nil (hrest : .comma ∉ rest.head?) : more expected meaning rest = .ok ([], rest) := by
  unfold more
  split
  · simp at hrest
  · simp at hrest
  · rfl

lemma several_cons (h : meaning t = some a) (hmore : more expected meaning ts = .ok (as, rest)) :
    several expected meaning (t :: ts) = .ok (a :: as, rest) :=
  bind_eq_ok.mpr ⟨(a, ts), one_cons h, bind_eq_ok.mpr ⟨(as, rest), hmore, rfl⟩⟩

lemma more_comma (h : several expected meaning ts = .ok (as, rest)) :
    more expected meaning (.comma :: ts) = .ok (as, rest) := by
  obtain ⟨⟨a, ts₁⟩, hone, h⟩ := bind_eq_ok.mp h
  obtain ⟨⟨as', ts₂⟩, hmore, h⟩ := bind_eq_ok.mp h
  cases h
  cases ts with
  | nil => cases hone
  | cons t ts =>
      cases hm : meaning t with
      | none => simp [one, hm] at hone
      | some b =>
          rw [one_cons hm] at hone
          cases hone
          rw [more, hm, hmore]

lemma several_of_listed (h : Listed P as ts) (hP : ∀ a t, P a t → meaning t = some a)
    (hrest : .comma ∉ rest.head?) : several expected meaning (ts ++ rest) = .ok (as, rest) := by
  induction h with
  | one h => exact several_cons (hP _ _ h) (more_nil hrest)
  | more h _ ih => exact several_cons (hP _ _ h) (more_comma ih)

end

/-! ### Clauses -/

variable {ts rest : List Token}

lemma token_cons (t : Token) (ts : List Token) : token t (t :: ts) = .ok ((), ts) := by
  rw [token, if_pos rfl]

lemma selectionPart_of_selects {selection : Selection} (h : Selects selection ts)
    (hrest : .comma ∉ rest.head?) : selectionPart (ts ++ rest) = .ok (selection, rest) := by
  cases h with
  | all => rfl
  | @listed names _ h =>
      have hseveral : several .name nameOf? (ts ++ rest) = .ok (names, rest) :=
        several_of_listed h (fun _ _ => nameOf?_of_nameToken) hrest
      have hne : ∀ tail, ts ++ rest ≠ .star :: tail := by
        cases h with
        | one h => cases h <;> simp
        | more h _ => cases h <;> simp
      unfold selectionPart
      split
      · exact absurd ‹_› (hne _)
      · exact bind_eq_ok.mpr ⟨(names, rest), hseveral, rfl⟩

lemma indexPart_of_indexed {index : Option String} (h : Indexed index ts)
    (hrest : .dot ∉ rest.head?) : indexPart (ts ++ rest) = .ok (index, rest) := by
  cases h with
  | none =>
      rw [List.nil_append]
      unfold indexPart
      split
      · simp at hrest
      · rfl
  | some h => exact bind_eq_ok.mpr ⟨(_, rest), one_cons (nameOf?_of_nameToken h), rfl⟩

lemma operandsPart_of_operands {vs : List Value} (h : Operands vs ts) :
    operandsPart (ts ++ rest) = .ok (vs, rest) := by
  cases h with
  | @bare v t h =>
      have hone : one .operand valueOf? (t :: rest) = .ok (v, rest) :=
        one_cons (valueOf?_of_valueToken h)
      cases h <;> exact bind_eq_ok.mpr ⟨(_, rest), hone, rfl⟩
  | @bracketed _ ts h =>
      have hseveral : several .operand valueOf? (ts ++ .closeBracket :: rest)
          = .ok (vs, .closeBracket :: rest) :=
        several_of_listed h (fun _ _ => valueOf?_of_valueToken) (by simp)
      rw [List.cons_append, List.append_assoc]
      exact bind_eq_ok.mpr ⟨(vs, .closeBracket :: rest), hseveral,
        bind_eq_ok.mpr ⟨((), rest), token_cons _ _, rfl⟩⟩

lemma conditionPart_of_conditional {c : String × Condition} (h : Conditional c ts) :
    conditionPart (ts ++ rest) = .ok (c, rest) := by
  cases h with
  | @mk s name symbol op vs ts hname hsymbol hoperands =>
      exact bind_eq_ok.mpr ⟨(s, symbol :: (ts ++ rest)), one_cons (nameOf?_of_nameToken hname),
        bind_eq_ok.mpr ⟨(op, ts ++ rest), one_cons (operatorOf?_of_comparisons hsymbol),
          bind_eq_ok.mpr ⟨(vs, rest), operandsPart_of_operands hoperands, rfl⟩⟩⟩

lemma moreConditions_of_joined {cs : List (Combinator × String × Condition)} (h : Joined cs ts) :
    moreConditions ts = .ok (cs, []) := by
  induction h with
  | nil => rw [moreConditions]
  | @cons j c cs ts rest hc _ ih =>
      have hj : combinatorOf? (joiner j) = some j := by cases j <;> rfl
      rw [moreConditions, hj]
      simp only
      split
      · rename_i e heq
        rw [conditionPart_of_conditional hc] at heq
        cases heq
      · rename_i heq
        rw [conditionPart_of_conditional hc] at heq
        cases heq
        rw [ih]

/-- One disjunction makes a disjunction of all. -/
lemma combinator_eq_iff {combinator : Combinator}
    {cs : List (Combinator × String × Condition)} :
    (if cs.any fun d => d.1 == .any then Combinator.any else .all) = combinator ↔
      (combinator = .any ↔ .any ∈ cs.map Prod.fst) := by
  have hany : (cs.any fun d => d.1 == .any) = true ↔ .any ∈ cs.map Prod.fst := by
    simp [List.any_eq_true]
  rw [← hany]
  split_ifs with hcs <;> cases combinator <;> simp [hcs]

section

variable {combinator : Combinator} {conditions : List (String × Condition)}

lemma dot_notMem_of_clause (h : Clause combinator conditions ts) : .dot ∉ ts.head? := by
  cases h <;> simp

lemma wherePart_of_clause (h : Clause combinator conditions ts) :
    wherePart ts = .ok ((combinator, conditions), []) := by
  cases h with
  | none => rfl
  | @conditions _ c cs ts rest hcombinator hc hcs =>
      refine bind_eq_ok.mpr ⟨(c, rest), conditionPart_of_conditional hc,
        bind_eq_ok.mpr ⟨(cs, []), moreConditions_of_joined hcs, ?_⟩⟩
      rw [← combinator_eq_iff.mpr hcombinator]
      rfl

end

/-- **A derived statement is read.** -/
theorem ofTokens_of_derives {s : Select} (h : Derives s ts) : ofTokens ts = .ok s := by
  obtain @⟨selection, index, clause, table, hselection, htable, hindex, hclause⟩ := h
  refine bind_eq_ok.mpr ⟨_, token_cons _ _, bind_eq_ok.mpr ⟨_,
    selectionPart_of_selects hselection (by simp), bind_eq_ok.mpr ⟨_, token_cons _ _,
    bind_eq_ok.mpr ⟨_, one_cons (nameOf?_of_nameToken htable), bind_eq_ok.mpr ⟨_,
    indexPart_of_indexed hindex (dot_notMem_of_clause hclause), bind_eq_ok.mpr ⟨_,
    wherePart_of_clause hclause, rfl⟩⟩⟩⟩⟩⟩

/-! ## What is read is derived -/

section

variable {α : Type} {P : α → Token → Prop} {expected : Expected} {meaning : Token → Option α}
  {a : α} {as : List α} {t : Token} {ts rest : List Token}

lemma nameToken_of_nameOf? {s : String} (h : nameOf? t = some s) : NameToken s t := by
  cases t <;> try cases h
  · exact .bare s
  · rename_i name
    rw [nameOf?] at h
    split_ifs at h with hempty
    · cases h
      exact .quoted fun hnil => hempty (by rw [hnil]; rfl)

lemma valueToken_of_valueOf? {v : Value} (h : valueOf? t = some v) : ValueToken v t := by
  cases t <;> cases h
  · exact .text _
  · exact .number _

lemma comparisons_of_operatorOf? {op : Operator} (h : operatorOf? t = some op) :
    (op, t) ∈ comparisons := by
  cases t <;> cases h <;> simp [comparisons]

lemma joiner_of_combinatorOf? {j : Combinator} (h : combinatorOf? t = some j) : joiner j = t := by
  cases t <;> cases h <;> rfl

lemma exists_of_one (h : one expected meaning ts = .ok (a, rest)) :
    ∃ t, ts = t :: rest ∧ meaning t = some a := by
  cases ts with
  | nil => cases h
  | cons t ts =>
      rw [one] at h
      split at h
      · rename_i hm
        cases h
        exact ⟨t, rfl, hm⟩
      · cases h

lemma listed_of_more (hP : ∀ a t, meaning t = some a → P a t)
    (h : more expected meaning ts = .ok (as, rest)) :
    as = [] ∧ ts = rest ∨ ∃ front, ts = .comma :: (front ++ rest) ∧ Listed P as front := by
  fun_induction more expected meaning ts generalizing as rest with
  | case1 t tail a hm as' tail' hmore ih =>
      cases h
      right
      rcases ih hmore with ⟨rfl, rfl⟩ | ⟨front, rfl, hfront⟩
      · exact ⟨[t], rfl, .one (hP _ _ hm)⟩
      · exact ⟨t :: .comma :: front, rfl, .more (hP _ _ hm) hfront⟩
  | case2 => cases h
  | case3 => cases h
  | case4 => cases h
  | case5 => cases h; exact Or.inl ⟨rfl, rfl⟩

lemma listed_of_several (hP : ∀ a t, meaning t = some a → P a t)
    (h : several expected meaning ts = .ok (as, rest)) :
    ∃ front, ts = front ++ rest ∧ Listed P as front := by
  obtain ⟨⟨a, ts₁⟩, hone, h⟩ := bind_eq_ok.mp h
  obtain ⟨⟨as', ts₂⟩, hmore, h⟩ := bind_eq_ok.mp h
  cases h
  obtain ⟨t, rfl, hm⟩ := exists_of_one hone
  rcases listed_of_more hP hmore with ⟨rfl, rfl⟩ | ⟨front, rfl, hfront⟩
  · exact ⟨[t], rfl, .one (hP _ _ hm)⟩
  · exact ⟨t :: .comma :: front, rfl, .more (hP _ _ hm) hfront⟩

end

lemma eq_cons_of_token {t : Token} {u : Unit} (h : token t ts = .ok (u, rest)) :
    ts = t :: rest := by
  cases ts with
  | nil => cases h
  | cons v ts =>
      rw [token] at h
      split_ifs at h with hv
      cases h
      rw [hv]

lemma selects_of_selectionPart {selection : Selection}
    (h : selectionPart ts = .ok (selection, rest)) :
    ∃ front, ts = front ++ rest ∧ Selects selection front := by
  unfold selectionPart at h
  split at h
  · cases h
    exact ⟨[.star], rfl, .all⟩
  · obtain ⟨⟨names, ts₁⟩, hnames, h⟩ := bind_eq_ok.mp h
    cases h
    obtain ⟨front, rfl, hfront⟩ := listed_of_several (fun _ _ => nameToken_of_nameOf?) hnames
    exact ⟨front, rfl, .listed hfront⟩

lemma indexed_of_indexPart {index : Option String} (h : indexPart ts = .ok (index, rest)) :
    ∃ front, ts = front ++ rest ∧ Indexed index front := by
  unfold indexPart at h
  split at h
  · obtain ⟨⟨name, ts₁⟩, hname, h⟩ := bind_eq_ok.mp h
    cases h
    obtain ⟨t, rfl, ht⟩ := exists_of_one hname
    exact ⟨[.dot, t], rfl, .some (nameToken_of_nameOf? ht)⟩
  · cases h
    exact ⟨[], rfl, .none⟩

lemma operands_of_operandsPart {vs : List Value} (h : operandsPart ts = .ok (vs, rest)) :
    ∃ front, ts = front ++ rest ∧ Operands vs front := by
  unfold operandsPart at h
  split at h
  · obtain ⟨⟨values, ts₁⟩, hvalues, h⟩ := bind_eq_ok.mp h
    obtain ⟨⟨_, ts₂⟩, hclose, h⟩ := bind_eq_ok.mp h
    cases h
    obtain ⟨front, rfl, hfront⟩ := listed_of_several (fun _ _ => valueToken_of_valueOf?) hvalues
    obtain rfl := eq_cons_of_token hclose
    exact ⟨_, by simp, .bracketed hfront⟩
  · obtain ⟨⟨v, ts₁⟩, hvalue, h⟩ := bind_eq_ok.mp h
    cases h
    obtain ⟨t, rfl, ht⟩ := exists_of_one hvalue
    exact ⟨[t], rfl, .bare (valueToken_of_valueOf? ht)⟩

lemma conditional_of_conditionPart {c : String × Condition} (h : conditionPart ts = .ok (c, rest)) :
    ∃ front, ts = front ++ rest ∧ Conditional c front := by
  obtain ⟨⟨name, ts₁⟩, hname, h⟩ := bind_eq_ok.mp h
  obtain ⟨⟨operator, ts₂⟩, hoperator, h⟩ := bind_eq_ok.mp h
  obtain ⟨⟨operands, ts₃⟩, hoperands, h⟩ := bind_eq_ok.mp h
  cases h
  obtain ⟨t, rfl, ht⟩ := exists_of_one hname
  obtain ⟨symbol, rfl, hsymbol⟩ := exists_of_one hoperator
  obtain ⟨front, rfl, hfront⟩ := operands_of_operandsPart hoperands
  exact ⟨t :: symbol :: front, rfl,
    .mk (nameToken_of_nameOf? ht) (comparisons_of_operatorOf? hsymbol) hfront⟩

lemma joined_of_moreConditions {cs : List (Combinator × String × Condition)}
    (h : moreConditions ts = .ok (cs, rest)) : ∃ front, ts = front ++ rest ∧ Joined cs front := by
  fun_induction moreConditions ts generalizing cs rest with
  | case1 => cases h; exact ⟨[], rfl, .nil⟩
  | case2 => cases h; exact ⟨[], rfl, .nil⟩
  | case3 => cases h
  | case4 => cases h
  | case5 t tail combinator hcombinator c ts₁ hcondition cs' tail' hmore ih =>
      cases h
      obtain ⟨front, rfl, hfront⟩ := conditional_of_conditionPart hcondition
      obtain ⟨further, rfl, hfurther⟩ := ih hmore
      obtain rfl := joiner_of_combinatorOf? hcombinator
      exact ⟨_, by simp, .cons hfront hfurther⟩

lemma clause_of_wherePart {combinator : Combinator} {conditions : List (String × Condition)}
    (h : wherePart ts = .ok ((combinator, conditions), rest)) :
    ∃ front, ts = front ++ rest ∧ Clause combinator conditions front := by
  unfold wherePart at h
  split at h
  · obtain ⟨⟨c, ts₁⟩, hcondition, h⟩ := bind_eq_ok.mp h
    obtain ⟨⟨cs, ts₂⟩, hmore, h⟩ := bind_eq_ok.mp h
    cases h
    obtain ⟨front, rfl, hfront⟩ := conditional_of_conditionPart hcondition
    obtain ⟨further, rfl, hfurther⟩ := joined_of_moreConditions hmore
    exact ⟨_, by simp, .conditions (combinator_eq_iff.mp rfl) hfront hfurther⟩
  · cases h
    exact ⟨[], rfl, .none⟩

/-- **A statement that is read is derived by its tokens.** -/
theorem derives_of_ofTokens {s : Select} (h : ofTokens ts = .ok s) : Derives s ts := by
  obtain ⟨⟨_, ts₁⟩, hselect, h⟩ := bind_eq_ok.mp h
  obtain ⟨⟨selection, ts₂⟩, hselection, h⟩ := bind_eq_ok.mp h
  obtain ⟨⟨_, ts₃⟩, hfrom, h⟩ := bind_eq_ok.mp h
  obtain ⟨⟨table, ts₄⟩, htable, h⟩ := bind_eq_ok.mp h
  obtain ⟨⟨index, ts₅⟩, hindex, h⟩ := bind_eq_ok.mp h
  obtain ⟨⟨⟨combinator, conditions⟩, ts₆⟩, hwhere, h⟩ := bind_eq_ok.mp h
  dsimp only at h
  split at h
  · cases h
    obtain rfl := eq_cons_of_token hselect
    obtain ⟨selected, rfl, hselected⟩ := selects_of_selectionPart hselection
    obtain rfl := eq_cons_of_token hfrom
    obtain ⟨t, rfl, ht⟩ := exists_of_one htable
    obtain ⟨indexed, rfl, hindexed⟩ := indexed_of_indexPart hindex
    obtain ⟨clause, rfl, hclause⟩ := clause_of_wherePart hwhere
    rw [List.append_nil]
    exact .mk hselected (nameToken_of_nameOf? ht) hindexed hclause
  · cases h

end Select

end ItemStore
