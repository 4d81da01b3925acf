import ItemStore.Value.Decoded

/-!
# Conditions

A condition is an operator with operands, put to one attribute of an item.  It is evaluated on
decoded values, so numbers compare whatever their spelling.  A type mismatch, a missing attribute
and a missing operand make a condition false; the one thing that makes it fail is an operator the
store does not have.

* `Operator.test` is the truth of an operator on a value that is there.
* `Condition.evaluate` adds the missing attribute and the unknown operator.
* `Combinator.evaluate` puts a list of conditions to an item, all of them or any of them; it stops
  at the first condition that decides, and an empty list holds of every item.
* `firstUnsupported?` finds an unknown operator before any item is looked at.
-/

namespace ItemStore

/-- A comparison operator.  `unknown` keeps a name that is none of the others'. -/
inductive Operator where
  | eq
  | ne
  | le
  | lt
  | ge
  | gt
  | notNull
  | null
  | contains
  | notContains
  | beginsWith
  | isIn
  | between
  | unknown (name : String)
deriving DecidableEq, Repr

namespace Operator

def name : Operator → String
  | eq => "EQ"
  | ne => "NE"
  | le => "LE"
  | lt => "LT"
  | ge => "GE"
  | gt => "GT"
  | notNull => "NOT_NULL"
  | null => "NULL"
  | contains => "CONTAINS"
  | notContains => "NOT_CONTAINS"
  | beginsWith => "BEGINS_WITH"
  | isIn => "IN"
  | between => "BETWEEN"
  | unknown name => name

def supported : List Operator :=
  [eq, ne, le, lt, ge, gt, notNull, null, contains, notContains, beginsWith, isIn, between]

/-- The operator of a name, in this spelling only. -/
def ofName (text : String) : Operator :=
  (supported.find? fun op => op.name == text).getD (unknown text)

theorem name_ofName (text : String) : (ofName text).name = text := by
  unfold ofName
  cases h : supported.find? fun op => op.name == text with
  | none => rfl
  | some op =>
    have hop := List.find?_some h
    exact beq_iff_eq.mp hop

def isSupported : Operator → Bool
  | unknown _ => false
  | _ => true

end Operator

/-- A condition on one attribute. -/
structure Condition where
  operator : Operator
  operands : List Value
deriving DecidableEq, Repr

/-- Conditions are evaluated unless they name an operator that the store does not have. -/
structure UnsupportedOperator where
  name : String
deriving DecidableEq, Repr

/-! ## Texts in texts -/

/-- Whether `part` stands somewhere in `whole` without a gap. -/
def occursIn (part : List Char) : List Char → Bool
  | [] => part.isEmpty
  | c :: rest => part.isPrefixOf (c :: rest) || occursIn part rest

/-! ## One condition -/

namespace Operator

/-- Whether a value stands to the first operand in an order that passes a check. -/
def orders (check : Ordering → Bool) (value : Value) : List Value → Bool
  | [] => false
  | operand :: _ => ((value.decode.compare operand.decode).map check).getD false

/-- Whether a value and the first operand are texts that stand in a relation. -/
def relatesTexts (relation : List Char → List Char → Bool) (value : Value) : List Value → Bool
  | [] => false
  | operand :: _ =>
    match value.asText?, operand.asText? with
    | some s, some t => relation s.toList t.toList
    | _, _ => false

/-- Whether an operator holds of a value that is there. -/
def test (op : Operator) (value : Value) (operands : List Value) : Bool :=
  match op with
  | null => value.isNull
  | notNull => !value.isNull
  | eq => (operands.head?.map fun w => value.agrees w).getD false
  | ne => (operands.head?.map fun w => !value.agrees w).getD false
  | isIn => operands.any fun w => value.agrees w
  | lt => orders Ordering.isLT value operands
  | le => orders Ordering.isLE value operands
  | gt => orders Ordering.isGT value operands
  | ge => orders Ordering.isGE value operands
  | between =>
    match operands with
    | low :: high :: _ =>
      orders Ordering.isGE value [low] && orders Ordering.isLE value [high]
    | _ => false
  | beginsWith => relatesTexts (fun s t => t.isPrefixOf s) value operands
  | contains => relatesTexts (fun s t => occursIn t s) value operands
  | notContains => relatesTexts (fun s t => !occursIn t s) value operands
  | unknown _ => false

end Operator

namespace Condition

/-- Put a condition to an attribute, which may be missing.  An unknown operator fails before
anything else is looked at. -/
def evaluate (c : Condition) (value : Option Value) : Except UnsupportedOperator Bool :=
  match c.operator with
  | .unknown name => .error ⟨name⟩
  | op => .ok ((value.map fun v => op.test v c.operands).getD false)

end Condition

/-- The first operator in a list of conditions that the store does not have. -/
def firstUnsupported? (conditions : List Condition) : Option UnsupportedOperator :=
  conditions.findSome? fun c =>
    match c.operator with
    | .unknown name => some ⟨name⟩
    | _ => none

/-! ## Lists of conditions -/

/-- How the conditions of a list are joined. -/
inductive Combinator where
  | all
  | any
deriving DecidableEq, Repr, Inhabited

namespace Combinator

def name : Combinator → String
  | all => "AND"
  | any => "OR"

/-- Whether every condition holds of an item; the first that does not ends the search. -/
def everyHolds (item : Item) : List (String × Condition) → Except UnsupportedOperator Bool
  | [] => .ok true
  | (name, c) :: rest =>
    match c.evaluate (item.get? name) with
    | .error e => .error e
    | .ok false => .ok false
    | .ok true => everyHolds item rest

/-- Whether some condition holds of an item; the first that does ends the search. -/
def someHolds (item : Item) : List (String × Condition) → Except UnsupportedOperator Bool
  | [] => .ok false
  | (name, c) :: rest =>
    match c.evaluate (item.get? name) with
    | .error e => .error e
    | .ok true => .ok true
    | .ok false => someHolds item rest

/-- Put a list of conditions, each on a named attribute, to an item. -/
def evaluate (combinator : Combinator) (conditions : List (String × Condition)) (item : Item) :
    Except UnsupportedOperator Bool :=
  match combinator with
  | all => everyHolds item conditions
  | any => if conditions.isEmpty then .ok true else someHolds item conditions

end Combinator

end ItemStore
