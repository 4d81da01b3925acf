import ItemStore.Select
import ItemStore.Select.Token

/-!
# Reading statements

A statement is

    SELECT selection FROM name [. name] [WHERE condition ((AND | OR) condition)*]

where the selection is `*` or names with commas between them, a condition is a name, an operator and
operands, and operands are one value or values with commas between them in brackets.  Nothing may
follow.

Each function reads its part from the front of the tokens and returns the tokens that are left.
-/

namespace ItemStore

namespace Select

/-- A part of a statement and the tokens behind it. -/
abbrev Parsed (α : Type) := α × List Token

/-- Read a token that must come. -/
def token (t : Token) : List Token → Except SelectFault (Parsed Unit)
  | u :: rest => if u = t then .ok ((), rest) else .error (.unexpected (.token t) u)
  | [] => .error (.ended (.token t))

/-! ## Names and values -/

/-- The name that a token stands for.  A quoted name must not be empty. -/
def nameOf? : Token → Option String
  | .name s => some s
  | .quotedName s => if s.isEmpty then none else some s
  | _ => none

def valueOf? : Token → Option Value
  | .string s => some (.text s)
  | .number n => some (.number n)
  | _ => none

def operatorOf? : Token → Option Operator
  | .eq => some .eq
  | .ne => some .ne
  | .lt => some .lt
  | .le => some .le
  | .gt => some .gt
  | .ge => some .ge
  | .kwIn => some .isIn
  | _ => none

def combinatorOf? : Token → Option Combinator
  | .kwAnd => some .all
  | .kwOr => some .any
  | _ => none

def one {α : Type} (expected : Expected) (meaning : Token → Option α) :
    List Token → Except SelectFault (Parsed α)
  | [] => .error (.ended expected)
  | t :: rest =>
    match meaning t with
    | some a => .ok (a, rest)
    | none => .error (.unexpected expected t)

/-- Read further things as long as commas come. -/
def more {α : Type} (expected : Expected) (meaning : Token → Option α) :
    List Token → Except SelectFault (Parsed (List α))
  | .comma :: t :: rest =>
    match meaning t with
    | some a =>
      match more expected meaning rest with
      | .ok (as, tail) => .ok (a :: as, tail)
      | .error e => .error e
    | none => .error (.unexpected expected t)
  | [.comma] => .error (.ended expected)
  | rest => .ok ([], rest)

/-- Read one thing or several, with commas between them. -/
def several {α : Type} (expected : Expected) (meaning : Token → Option α) (ts : List Token) :
    Except SelectFault (Parsed (List α)) := do
  let (a, ts) ← one expected meaning ts
  let (as, ts) ← more expected meaning ts
  return (a :: as, ts)

/-! ## Clauses -/

def selectionPart : List Token → Except SelectFault (Parsed Selection)
  | .star :: rest => .ok (.all, rest)
  | ts => do
    let (names, ts) ← several .name nameOf? ts
    return (.listed names, ts)

/-- Read the name of an index, if a dot comes. -/
def indexPart : List Token → Except SelectFault (Parsed (Option String))
  | .dot :: rest => do
    let (name, ts) ← one .name nameOf? rest
    return (some name, ts)
  | ts => .ok (none, ts)

def operandsPart : List Token → Except SelectFault (Parsed (List Value))
  | .openBracket :: rest => do
    let (values, ts) ← several .operand valueOf? rest
    let (_, ts) ← token .closeBracket ts
    return (values, ts)
  | ts => do
    let (v, ts) ← one .operand valueOf? ts
    return ([v], ts)

def conditionPart (ts : List Token) : Except SelectFault (Parsed (String × Condition)) := do
  let (name, ts) ← one .name nameOf? ts
  let (operator, ts) ← one .operator operatorOf? ts
  let (operands, ts) ← operandsPart ts
  return ((name, ⟨operator, operands⟩), ts)

/-! ## Parts leave less to read -/

theorem length_one_lt {α : Type} {expected : Expected} {meaning : Token → Option α} {a : α}
    {ts rest : List Token} (h : one expected meaning ts = .ok (a, rest)) :
    rest.length < ts.length := by
  cases ts with
  | nil => cases h
  | cons t tail =>
    cases hm : meaning t with
    | none => simp [one, hm] at h
    | some b =>
      simp only [one, hm, Except.ok.injEq, Prod.mk.injEq] at h
      rw [← h.2]
      exact Nat.lt_succ_self _

theorem length_more_le {α : Type} {expected : Expected} {meaning : Token → Option α}
    {as : List α} {ts rest : List Token} (h : more expected meaning ts = .ok (as, rest)) :
    rest.length ≤ ts.length := by
  fun_induction more expected meaning ts generalizing as rest with
  | case1 t tail a ha as' tail' hm ih =>
    cases h
    have := ih hm
    simp only [List.length_cons]
    omega
  | case2 => cases h
  | case3 => cases h
  | case4 => cases h
  | case5 => cases h; exact Nat.le_refl _

theorem length_several_lt {α : Type} {expected : Expected} {meaning : Token → Option α}
    {as : List α} {ts rest : List Token} (h : several expected meaning ts = .ok (as, rest)) :
    rest.length < ts.length := by
  unfold several at h
  cases ho : one expected meaning ts with
  | error e => simp [ho, bind, Except.bind] at h
  | ok p =>
    cases hm : more expected meaning p.2 with
    | error e => simp [ho, hm, bind, Except.bind] at h
    | ok q =>
      simp only [ho, hm, bind, Except.bind, pure, Except.pure, Except.ok.injEq,
        Prod.mk.injEq] at h
      have h₁ := length_one_lt ho
      have h₂ := length_more_le hm
      rw [← h.2]
      omega

theorem length_operandsPart_lt {vs : List Value} {ts rest : List Token}
    (h : operandsPart ts = .ok (vs, rest)) : rest.length < ts.length := by
  unfold operandsPart at h
  split at h
  · rename_i tail
    cases hs : several .operand valueOf? tail with
    | error e => simp [hs, bind, Except.bind] at h
    | ok p =>
      have hlt := length_several_lt hs
      cases hp : p.2 with
      | nil => simp [hs, hp, token, bind, Except.bind] at h
      | cons u us =>
        rw [hp] at hlt
        simp only [hs, hp, token, bind, Except.bind, pure, Except.pure] at h
        split at h
        · cases h
        · rename_i r hr
          split at hr
          · cases hr
            cases h
            simp only [List.length_cons] at hlt ⊢
            omega
          · cases hr
  · cases ho : one .operand valueOf? ts with
    | error e => simp [ho, bind, Except.bind] at h
    | ok p =>
      simp only [ho, bind, Except.bind, pure, Except.pure, Except.ok.injEq,
        Prod.mk.injEq] at h
      rw [← h.2]
      exact length_one_lt ho

/-- A condition takes at least one token. -/
theorem length_conditionPart_lt {c : String × Condition} {ts rest : List Token}
    (h : conditionPart ts = .ok (c, rest)) : rest.length < ts.length := by
  unfold conditionPart at h
  cases h₁ : one .name nameOf? ts with
  | error e => simp [h₁, bind, Except.bind] at h
  | ok p =>
    cases h₂ : one .operator operatorOf? p.2 with
    | error e => simp [h₁, h₂, bind, Except.bind] at h
    | ok q =>
      cases h₃ : operandsPart q.2 with
      | error e => simp [h₁, h₂, h₃, bind, Except.bind] at h
      | ok r =>
        simp only [h₁, h₂, h₃, bind, Except.bind, pure, Except.pure, Except.ok.injEq,
          Prod.mk.injEq] at h
        have l₁ := length_one_lt h₁
        have l₂ := length_one_lt h₂
        have l₃ := length_operandsPart_lt h₃
        rw [← h.2]
        omega

/-! ## Statements -/

/-- Read further conditions, each behind the word that joins it. -/
def moreConditions :
    List Token → Except SelectFault (Parsed (List (Combinator × String × Condition)))
  | [] => .ok ([], [])
  | t :: rest =>
    match combinatorOf? t with
    | none => .ok ([], t :: rest)
    | some combinator =>
      match _h : conditionPart rest with
      | .error e => .error e
      | .ok (c, ts) =>
        match moreConditions ts with
        | .error e => .error e
        | .ok (cs, tail) => .ok ((combinator, c) :: cs, tail)
termination_by ts => ts.length
decreasing_by exact Nat.lt_succ_of_lt (length_conditionPart_lt _h)

/-- Read the conditions of a statement, if there is a clause of them.  One disjunction makes a
disjunction of all. -/
def wherePart :
    List Token → Except SelectFault (Parsed (Combinator × List (String × Condition)))
  | .kwWhere :: rest => do
    let (c, ts) ← conditionPart rest
    let (cs, ts) ← moreConditions ts
    let combinator : Combinator := if cs.any fun d => d.1 == .any then .any else .all
    return ((combinator, c :: cs.map Prod.snd), ts)
  | ts => .ok ((.all, []), ts)

def ofTokens (ts : List Token) : Except SelectFault Select := do
  let (_, ts) ← token .kwSelect ts
  let (selection, ts) ← selectionPart ts
  let (_, ts) ← token .kwFrom ts
  let (table, ts) ← one .name nameOf? ts
  let (index, ts) ← indexPart ts
  let ((combinator, conditions), ts) ← wherePart ts
  match ts with
  | [] => return { table, index, selection, combinator, conditions }
  | t :: _ => throw (.unexpected .nothing t)

def read (text : String) : Except SelectFault Select := do
  let ts ← Token.tokens text.toList
  ofTokens ts

end Select

end ItemStore
